/-
**Equality of options is equality of maps.**

Two configurations are compared by their number of options and by looking up each option of the one
in the other.  Options that were entered one by one have names of their own, so this one-sided test
is equality of maps: the same names, and equal values under each.  Equality of values is then
agreement up to the comparison of floats as numbers, and inherits what that comparison has: it is
symmetric and transitive, it does not see in which order options were entered, and what holds a
float that is not a number is the only thing that differs from itself.

Main definitions:

* `Value.Composed`, `Identifier.Composed`, `Config.Composed` — options were entered one by one, at
  every depth;
* `Config.EqualMaps` — the same option names, and equal values under each;
* `Value.Reorders`, `Identifier.Reorders`, `Config.Reorders` — the same but for the order in which
  options were entered, at any depth;
* `Comparison` — what can be relied on of a comparison.

Main results:

* `Value.agrees_symm`, `Value.agrees_trans`, `Value.agrees_self_iff` — agreement has what the
  comparison of floats has;
* `Value.same_iff_agrees` — equality is agreement up to the comparison of floats as numbers;
* `Config.same_eq_found` — it does not matter which of two values under a name is compared with the
  other;
* `config_equality` — **equality of options is equality of maps**, symmetric, transitive, blind to
  order, and reflexive but for what is not a number.
-/

import Mathlib.Data.List.Forall2
import SchemaGraph.Proofs.Identity.Equality

set_option autoImplicit false

namespace SchemaGraph

open Decimal (Binary64)

/-! ### Options entered one by one -/

namespace Dictionary

variable {κ α : Type} [DecidableEq κ]

theorem eq_or_mem_of_mem_set {k : κ} {v : α} {d : Dictionary κ α} {p : κ × α}
    (h : p ∈ set k v d) : p = (k, v) ∨ p ∈ d := by
  induction d with
  | nil => exact Or.inl (List.mem_singleton.1 h)
  | cons q d ih =>
      obtain ⟨n, w⟩ := q
      by_cases hn : n = k
      · rw [set, if_pos hn, hn] at h
        exact (List.mem_cons.1 h).imp_right (List.mem_cons_of_mem _)
      · rw [set, if_neg hn] at h
        rcases List.mem_cons.1 h with rfl | h
        · exact Or.inr List.mem_cons_self
        · exact (ih h).imp_right (List.mem_cons_of_mem _)

theorem nodup_names_ofPairs (pairs : List (κ × α)) : (names (ofPairs pairs)).Nodup := by
  refine List.foldlRecOn (motive := fun d => (names d).Nodup) pairs _ List.nodup_nil ?_
  intro d hd p _
  exact nodup_names_set hd p.1 p.2

/-- What is listed was entered. -/
theorem ofPairs_subset (pairs : List (κ × α)) : ofPairs pairs ⊆ pairs := by
  refine List.foldlRecOn (motive := fun d => d ⊆ pairs) pairs _ (List.nil_subset _) ?_
  intro d hd p hp q hq
  rcases eq_or_mem_of_mem_set hq with rfl | hq
  · exact hp
  · exact hd hq

end Dictionary

mutual

/-- The options of each identifier that the value holds were entered one by one. -/
inductive Value.Composed : Value → Prop where
  | plain {v : Value} : v.isPlain = true → Value.Composed v
  | list {items : List Value} : (∀ v ∈ items, Value.Composed v) → Value.Composed (.list items)
  | type {id : Identifier} : Identifier.Composed id → Value.Composed (.type id)

/-- The options of the identifier were entered one by one, and so were those of each identifier that
an option holds. -/
inductive Identifier.Composed : Identifier → Prop where
  | ofPairs (name : String) {pairs : List (String × Value)} :
      (∀ p ∈ pairs, Value.Composed p.2) → Identifier.Composed ⟨name, Dictionary.ofPairs pairs⟩

end

/-- The options were entered one by one, and so were those of each identifier that an option
holds. -/
def Config.Composed (c : Config) : Prop :=
  ∃ pairs, c = Dictionary.ofPairs pairs ∧ ∀ p ∈ pairs, p.2.Composed

mutual

theorem Value.Composed.distinct {v : Value} (h : v.Composed) : v.Distinct :=
  match h with
  | .plain hv => Value.distinct_of_isPlain hv
  | .list hitems => (Value.distinct_list _).2 fun v hv => (hitems v hv).distinct
  | .type hid => (Value.distinct_type _).2 hid.distinct

/-- Options that were entered one by one are not set twice. -/
theorem Identifier.Composed.distinct {id : Identifier} (h : id.Composed) : id.Distinct :=
  match h with
  | .ofPairs _ hpairs => (Identifier.distinct_iff _).2
      ⟨Dictionary.nodup_names_ofPairs _,
        fun p hp => (hpairs p (Dictionary.ofPairs_subset _ hp)).distinct⟩

end

/-- The identifier of an empty name that holds the options. -/
def Config.identifier (c : Config) : Identifier := ⟨"", c⟩

theorem Config.Composed.identifier {c : Config} (h : c.Composed) : c.identifier.Composed := by
  obtain ⟨pairs, rfl, hpairs⟩ := h
  exact .ofPairs "" hpairs

theorem Config.same_identifier (c d : Config) : c.identifier.same d.identifier = c.same d := by
  rw [Identifier.same_eq]
  simp [identifier, Identifier.config]

/-! ### What is found on both sides -/

section Rel

variable {α : Type} {P Q T : α → α → Prop} {x y z : Option α}

theorem rel_symm (h : Option.Rel P x y) (hPQ : ∀ v ∈ x, ∀ w ∈ y, P v w → Q w v) :
    Option.Rel Q y x := by
  cases h with
  | none => exact .none
  | some hvw => exact .some (hPQ _ rfl _ rfl hvw)

theorem rel_trans (h : Option.Rel P x y) (h' : Option.Rel Q y z)
    (hT : ∀ u ∈ x, ∀ v ∈ y, ∀ w ∈ z, P u v → Q v w → T u w) : Option.Rel T x z := by
  cases h with
  | none =>
      cases h'
      exact .none
  | some huv =>
      cases h' with
      | some hvw => exact .some (hT _ rfl _ rfl _ rfl huv hvw)

theorem rel_congr (h : ∀ v ∈ x, ∀ w ∈ y, P v w ↔ Q v w) : Option.Rel P x y ↔ Option.Rel Q x y := by
  cases x <;> cases y <;> simp_all

theorem rel_self_iff : Option.Rel P x x ↔ ∀ v ∈ x, P v v := by
  cases x <;> simp

/-- Lists are related item by item when they are at every place. -/
theorem forall₂_iff_rel {as bs : List α} :
    List.Forall₂ P as bs ↔ ∀ i : Nat, Option.Rel P as[i]? bs[i]? := by
  constructor
  · intro h
    induction h with
    | nil => exact fun i => by simp
    | cons hvw _ ih =>
        intro i
        cases i with
        | zero => simpa using hvw
        | succ i => simpa using ih i
  · intro h
    induction as generalizing bs with
    | nil =>
        cases bs with
        | nil => exact .nil
        | cons w bs => simpa using h 0
    | cons v as ih =>
        cases bs with
        | nil => simpa using h 0
        | cons w bs =>
            have hhead : P v w := by simpa using h 0
            exact .cons hhead (ih fun i => by simpa using h (i + 1))

end Rel

/-! ### Agreement has what the comparison of floats has -/

section Agreement

variable {f g h : Binary64 → Binary64 → Bool}

theorem itemsAgree_iff (as bs : List Value) : itemsAgree f as bs = true
    ↔ ∀ i : Nat, Option.Rel (fun v w : Value => v.agrees f w = true) as[i]? bs[i]? := by
  rw [← forall₂_iff_rel]
  induction as generalizing bs with
  | nil => cases bs <;> simp [itemsAgree]
  | cons v as ih => cases bs <;> simp [itemsAgree, ih]

/-- Plain values agree when they are the same, or floats that do. -/
theorem Value.agrees_iff_of_isPlain {v : Value} (hv : v.isPlain = true) (w : Value) :
    v.agrees f w = true ↔
      (∃ x y, v = .float x ∧ w = .float y ∧ f x y = true) ∨ v = w ∧ ∀ x, v ≠ .float x := by
  cases v with
  | list | type => cases hv
  | _ => cases w <;> simp [Value.agrees]

/-- Values that agree do so the other way round, up to the comparison of floats. -/
theorem Value.agrees_symm (hfg : ∀ x y, f x y = true → g y x = true) (v : Value) :
    ∀ w : Value, v.Distinct → w.Distinct → v.agrees f w = true → w.agrees g v = true := by
  induction v using Value.nested_induction with
  | plain v hv =>
      intro w _ _ hvw
      rcases (agrees_iff_of_isPlain hv w).1 hvw with ⟨x, y, rfl, rfl, hxy⟩ | ⟨rfl, hfloat⟩
      · exact hfg x y hxy
      · exact (agrees_iff_of_isPlain hv v).2 (Or.inr ⟨rfl, hfloat⟩)
  | list items ih =>
      intro w hv hw hvw
      cases w with
      | list items' =>
          rw [Value.distinct_list] at hv hw
          rw [Value.agrees, itemsAgree_iff] at hvw ⊢
          intro i
          refine rel_symm (hvw i) fun x hx y hy => ?_
          have hxm := List.mem_of_getElem? hx
          exact ih x hxm y (hv x hxm) (hw y (List.mem_of_getElem? hy))
      | _ => simp [Value.agrees] at hvw
  | type a ih =>
      intro w hv hw hvw
      cases w with
      | type b =>
          rw [Value.distinct_type, Identifier.distinct_iff] at hv hw
          rw [Value.agrees] at hvw ⊢
          obtain ⟨hname, hfound⟩ := (Identifier.agrees_iff hv.1).1 hvw
          refine (Identifier.agrees_iff hw.1).2 ⟨hname.symm, fun n => ?_⟩
          refine rel_symm (hfound n) fun x hx y hy => ?_
          have hxm := Dictionary.mem_of_find? hx
          exact ih _ hxm y (hv.2 _ hxm) (hw.2 _ (Dictionary.mem_of_find? hy))
      | _ => simp [Value.agrees] at hvw

/-- Agreement is carried on from value to value, up to the comparisons of floats. -/
theorem Value.agrees_trans (hfgh : ∀ x y z, f x y = true → g y z = true → h x z = true)
    (u : Value) : ∀ v w : Value, u.Distinct → v.Distinct → w.Distinct →
      u.agrees f v = true → v.agrees g w = true → u.agrees h w = true := by
  induction u using Value.nested_induction with
  | plain u hu =>
      intro v w _ _ _ huv hvw
      rcases (agrees_iff_of_isPlain hu v).1 huv with ⟨x, y, rfl, rfl, hxy⟩ | ⟨rfl, hfloat⟩
      · cases w with
        | float z => exact hfgh x y z hxy hvw
        | _ => simp [Value.agrees] at hvw
      · rcases (agrees_iff_of_isPlain hu w).1 hvw with ⟨x, y, rfl, rfl, -⟩ | ⟨rfl, -⟩
        · exact absurd rfl (hfloat x)
        · exact (agrees_iff_of_isPlain hu u).2 (Or.inr ⟨rfl, hfloat⟩)
  | list items ih =>
      intro v w hu hv hw huv hvw
      cases v with
      | list items' =>
          cases w with
          | list items'' =>
              rw [Value.distinct_list] at hu hv hw
              rw [Value.agrees, itemsAgree_iff] at huv hvw ⊢
              intro i
              refine rel_trans (huv i) (hvw i) fun x hx y hy z hz => ?_
              have hxm := List.mem_of_getElem? hx
              exact ih x hxm y z (hu x hxm) (hv y (List.mem_of_getElem? hy))
                (hw z (List.mem_of_getElem? hz))
          | _ => simp [Value.agrees] at hvw
      | _ => simp [Value.agrees] at huv
  | type a ih =>
      intro v w hu hv hw huv hvw
      cases v with
      | type b =>
          cases w with
          | type c =>
              rw [Value.distinct_type, Identifier.distinct_iff] at hu hv hw
              rw [Value.agrees] at huv hvw ⊢
              obtain ⟨hname, hfound⟩ := (Identifier.agrees_iff hu.1).1 huv
              obtain ⟨hname', hfound'⟩ := (Identifier.agrees_iff hv.1).1 hvw
              refine (Identifier.agrees_iff hu.1).2 ⟨hname.trans hname', fun n => ?_⟩
              refine rel_trans (hfound n) (hfound' n) fun x hx y hy z hz => ?_
              have hxm := Dictionary.mem_of_find? hx
              exact ih _ hxm y z (hu.2 _ hxm) (hv.2 _ (Dictionary.mem_of_find? hy))
                (hw.2 _ (Dictionary.mem_of_find? hz))
          | _ => simp [Value.agrees] at hvw
      | _ => simp [Value.agrees] at huv

/-- A value agrees with itself when the floats that it holds do. -/
theorem Value.agrees_self_iff (v : Value) :
    v.Distinct → (v.agrees f v = true ↔ ∀ x ∈ v.floats, f x x = true) := by
  induction v using Value.nested_induction with
  | plain v hv =>
      intro _
      cases v <;> simp_all [Value.isPlain, Value.agrees, Value.floats]
  | list items ih =>
      intro hv
      rw [Value.distinct_list] at hv
      rw [Value.agrees, itemsAgree_iff]
      simp only [rel_self_iff, Value.mem_floats_list]
      constructor
      · rintro hall x ⟨v, hvm, hx⟩
        obtain ⟨i, hi⟩ := List.getElem?_of_mem hvm
        exact (ih v hvm (hv v hvm)).1 (hall i v hi) x hx
      · intro hall i v hi
        have hvm := List.mem_of_getElem? hi
        exact (ih v hvm (hv v hvm)).2 fun x hx => hall x ⟨v, hvm, hx⟩
  | type a ih =>
      intro hv
      rw [Value.distinct_type, Identifier.distinct_iff] at hv
      rw [Value.agrees, Identifier.agrees_iff hv.1, Value.floats_type]
      simp only [rel_self_iff, Identifier.mem_floats, true_and]
      constructor
      · rintro hall x ⟨p, hp, hx⟩
        have hfound := (Dictionary.mem_iff_find? hv.1 p.1 p.2).1 hp
        exact (ih p hp (hv.2 p hp)).1 (hall p.1 p.2 hfound) x hx
      · intro hall n v hn
        have hp := Dictionary.mem_of_find? hn
        exact (ih _ hp (hv.2 _ hp)).2 fun x hx => hall x ⟨_, hp, hx⟩

end Agreement

/-! ### Equality is agreement -/

theorem sameItems_iff (as bs : List Value) : sameItems as bs = true
    ↔ ∀ i : Nat, Option.Rel (fun v w : Value => v.same w = true) as[i]? bs[i]? := by
  rw [← forall₂_iff_rel]
  induction as generalizing bs with
  | nil => cases bs <;> simp [sameItems]
  | cons v as ih => cases bs <;> simp [sameItems, ih]

/-- Two configurations are equal as maps: they have the same option names, and equal values under
each. -/
structure Config.EqualMaps (c d : Config) : Prop where
  names : ∀ n, n ∈ Dictionary.names c ↔ n ∈ Dictionary.names d
  values : ∀ n v w, Dictionary.find? n c = some v → Dictionary.find? n d = some w → v.same w = true

theorem Config.equalMaps_iff {c d : Config} : c.EqualMaps d ↔
    ∀ n, Option.Rel (fun v w => v.same w = true) (Dictionary.find? n c) (Dictionary.find? n d) := by
  constructor
  · rintro ⟨hnames, hvalues⟩ n
    have hn := hnames n
    rw [← Dictionary.find?_isSome_iff, ← Dictionary.find?_isSome_iff] at hn
    cases hc : Dictionary.find? n c with
    | none =>
        rw [hc] at hn
        rw [Option.not_isSome_iff_eq_none.1 fun hd => Bool.false_ne_true (hn.2 hd)]
        exact .none
    | some v =>
        rw [hc] at hn
        obtain ⟨w, hw⟩ := Option.isSome_iff_exists.1 (hn.1 rfl)
        rw [hw]
        exact .some (hvalues n v w hc hw)
  · intro hfound
    refine ⟨fun n => ?_, fun n v w hv hw => ?_⟩
    · have hrel := hfound n
      rw [← Dictionary.find?_isSome_iff, ← Dictionary.find?_isSome_iff]
      generalize Dictionary.find? n c = x at hrel ⊢
      generalize Dictionary.find? n d = y at hrel ⊢
      cases hrel <;> rfl
    · have hrel := hfound n
      rw [hv, hw] at hrel
      cases hrel with
      | some hvw => exact hvw

/-- **Options with names of their own are equal when under each name equal values are found**, or
none on both sides. -/
theorem Config.same_iff {c d : Config} (hc : (Dictionary.names c).Nodup)
    (hd : (Dictionary.names d).Nodup) : c.same d = true ↔
      ∀ n, Option.Rel (fun v w => v.same w = true) (Dictionary.find? n c) (Dictionary.find? n d) := by
  rw [Config.same, Bool.and_eq_true, beq_iff_eq]
  constructor
  · rintro ⟨hlen, hoptions⟩ n
    cases hn : Dictionary.find? n c with
    | some v =>
        obtain ⟨w, hw, hvw⟩ := (sameOptions_iff c d).1 hoptions (n, v) (Dictionary.mem_of_find? hn)
        rw [hw]
        exact .some hvw
    | none =>
        -- the other side has no more names, since it has as many
        have hnone : Dictionary.find? n d = none := by
          rw [Dictionary.find?_eq_none_iff] at hn ⊢
          exact fun hmem => hn (names_subset_of_sameOptions hc hlen hoptions hmem)
        rw [hnone]
        exact .none
  · intro hfound
    have hnames := (Config.equalMaps_iff.2 hfound).names
    refine ⟨?_, (sameOptions_iff c d).2 ?_⟩
    · have hperm := (List.perm_ext_iff_of_nodup hc hd).2 hnames
      simpa [Dictionary.names] using hperm.length_eq
    · rintro ⟨n, v⟩ hp
      have hrel := hfound n
      rw [(Dictionary.mem_iff_find? hc n v).1 hp] at hrel
      generalize Dictionary.find? n d = y at hrel ⊢
      cases hrel with
      | some hvw => exact ⟨_, rfl, hvw⟩

/-- **Equality is agreement, up to the comparison of floats as numbers.** -/
theorem Value.same_iff_agrees (v : Value) : ∀ w : Value, v.Distinct → w.Distinct →
    (v.same w = true ↔ v.agrees Binary64.same w = true) := by
  induction v using Value.nested_induction with
  | plain v hv =>
      intro w _ _
      cases v <;> cases w <;> simp_all [Value.isPlain, Value.same, Value.agrees]
  | list items ih =>
      intro w hv hw
      cases w with
      | list items' =>
          rw [Value.distinct_list] at hv hw
          rw [Value.same_list, Value.agrees, sameItems_iff, itemsAgree_iff]
          refine forall_congr' fun i => rel_congr fun x hx y hy => ?_
          have hxm := List.mem_of_getElem? hx
          exact ih x hxm y (hv x hxm) (hw y (List.mem_of_getElem? hy))
      | _ => simp [Value.same, Value.agrees]
  | type a ih =>
      intro w hv hw
      cases w with
      | type b =>
          rw [Value.distinct_type, Identifier.distinct_iff] at hv hw
          rw [Value.same_type, Value.agrees, Identifier.same_eq, Bool.and_eq_true, beq_iff_eq,
            Config.same_iff hv.1 hw.1, Identifier.agrees_iff hv.1]
          refine and_congr_right fun _ => forall_congr' fun n => rel_congr fun x hx y hy => ?_
          have hxm := Dictionary.mem_of_find? hx
          exact ih _ hxm y (hv.2 _ hxm) (hw.2 _ (Dictionary.mem_of_find? hy))
      | _ => simp [Value.same, Value.agrees]

/-! ### What can be relied on -/

theorem Decimal.Binary64.same_trans {x y z : Binary64} (hxy : x.same y = true)
    (hyz : y.same z = true) : x.same z = true := by
  simp only [same, Bool.and_eq_true, Bool.or_eq_true, beq_iff_eq] at hxy hyz ⊢
  refine ⟨⟨hxy.1.1, hyz.1.2⟩, ?_⟩
  rcases hxy.2 with hxy | ⟨hx, hy⟩
  · rcases hyz.2 with hyz | ⟨hy, hz⟩
    · exact Or.inl (hxy.trans hyz)
    · refine Or.inr ⟨?_, hz⟩
      rwa [isZero, exponentField, fraction, hxy]
  · rcases hyz.2 with hyz | ⟨-, hz⟩
    · refine Or.inr ⟨hx, ?_⟩
      rwa [isZero, exponentField, fraction, ← hyz]
    · exact Or.inr ⟨hx, hz⟩

/-- What can be relied on of a comparison: it is symmetric and transitive, it is reflexive on what
holds no float but numbers, and it does not tell apart what differs in order alone. -/
structure Comparison {α : Type} (S : α → Prop) (same : α → α → Bool) (floats : α → List Binary64)
    (reorders : α → α → Prop) : Prop where
  symm : ∀ {a b}, S a → S b → same a b = same b a
  trans : ∀ {a b c}, S a → S b → S c → same a b = true → same b c = true → same a c = true
  refl_iff : ∀ {a}, S a → (same a a = true ↔ ∀ x ∈ floats a, x.isNaN = false)
  blind : ∀ {a a' b}, S a → S a' → S b → reorders a a' →
    same a b = same a' b ∧ same b a = same b a'

/-- A comparison of what is read off from things compares the things. -/
theorem Comparison.comap {α β : Type} {S : α → Prop} {same : α → α → Bool}
    {floats : α → List Binary64} {reorders : α → α → Prop} (h : Comparison S same floats reorders)
    (S' : β → Prop) (view : β → α) (hS : ∀ {b}, S' b → S (view b)) :
    Comparison S' (fun a b => same (view a) (view b)) (fun b => floats (view b))
      (fun a b => reorders (view a) (view b)) where
  symm ha hb := h.symm (hS ha) (hS hb)
  trans ha hb hc := h.trans (hS ha) (hS hb) (hS hc)
  refl_iff ha := h.refl_iff (hS ha)
  blind ha ha' hb := h.blind (hS ha) (hS ha') (hS hb)

/-- The values are the same but for the order in which options were entered, at any depth. -/
def Value.Reorders (v w : Value) : Prop := v.agrees Binary64.identical w = true

/-- The identifiers are the same but for the order in which options were entered, at any depth. -/
def Identifier.Reorders (a b : Identifier) : Prop := a.agrees Binary64.identical b = true

/-- The options are the same but for the order in which they were entered, at any depth. -/
def Config.Reorders (c d : Config) : Prop := c.identifier.Reorders d.identifier

/-- What is the same but for the order of options is equal to the same things. -/
theorem Value.same_of_reorders {v v' w : Value} (hv : v.Distinct) (hv' : v'.Distinct)
    (hw : w.Distinct) (h : v.Reorders v') (hsame : v'.same w = true) : v.same w = true := by
  rw [same_iff_agrees v w hv hw]
  refine agrees_trans (fun x y z hxy hyz => ?_) v v' w hv hv' hw h
    ((same_iff_agrees v' w hv' hw).1 hsame)
  rwa [(Binary64.identical_iff x y).1 hxy]

theorem Value.Reorders.symm {v w : Value} (hv : v.Distinct) (hw : w.Distinct)
    (h : v.Reorders w) : w.Reorders v := by
  refine agrees_symm (fun x y hxy => ?_) v w hv hw h
  rwa [Binary64.identical_iff, eq_comm, ← Binary64.identical_iff]

theorem Value.same_symm {v w : Value} (hv : v.Distinct) (hw : w.Distinct)
    (h : v.same w = true) : w.same v = true := by
  rw [same_iff_agrees w v hw hv]
  refine agrees_symm (fun x y hxy => ?_) v w hv hw ((same_iff_agrees v w hv hw).1 h)
  rwa [Binary64.same_comm]

/-- **What can be relied on of the equality of values.** -/
theorem Value.comparison : Comparison Value.Composed Value.same Value.floats Value.Reorders := by
  have hcomm : ∀ {v w : Value}, v.Composed → w.Composed → v.same w = w.same v := by
    intro v w hv hw
    exact Bool.eq_iff_iff.2 ⟨same_symm hv.distinct hw.distinct, same_symm hw.distinct hv.distinct⟩
  refine ⟨hcomm, ?_, ?_, ?_⟩
  · intro u v w hu hv hw huv hvw
    have hfloats : ∀ x y z : Binary64, x.same y = true → y.same z = true → x.same z = true :=
      fun x y z => Binary64.same_trans
    refine (same_iff_agrees u w hu.distinct hw.distinct).2 ?_
    exact agrees_trans hfloats u v w hu.distinct hv.distinct hw.distinct
      ((same_iff_agrees u v hu.distinct hv.distinct).1 huv)
      ((same_iff_agrees v w hv.distinct hw.distinct).1 hvw)
  · intro v hv
    refine (same_iff_agrees v v hv.distinct hv.distinct).trans ?_
    simp only [agrees_self_iff v hv.distinct, Binary64.same_self_iff]
  · intro v v' w hv hv' hw h
    have hsame : v.same w = v'.same w := Bool.eq_iff_iff.2
      ⟨same_of_reorders hv'.distinct hv.distinct hw.distinct (h.symm hv.distinct hv'.distinct),
        same_of_reorders hv.distinct hv'.distinct hw.distinct h⟩
    exact ⟨hsame, by rw [hcomm hw hv, hcomm hw hv', hsame]⟩

/-- **What can be relied on of the equality of identifiers.** -/
theorem Identifier.comparison :
    Comparison Identifier.Composed Identifier.same Identifier.floats Identifier.Reorders := by
  have hcomparison := Value.comparison.comap Identifier.Composed Value.type .type
  simp only [Value.same_type, Value.floats_type, Value.Reorders, Value.agrees] at hcomparison
  exact hcomparison

/-- **What can be relied on of the equality of options.** -/
theorem Config.comparison :
    Comparison Config.Composed Config.same optionsFloats Config.Reorders := by
  have hcomparison := Identifier.comparison.comap Config.Composed Config.identifier
    Config.Composed.identifier
  simp only [Config.same_identifier] at hcomparison
  exact hcomparison

/-! ### Equality of options is equality of maps -/

/-- Plain values are equal when they are equal numbers as floats, or else the same. -/
theorem Value.same_iff_of_isPlain {v : Value} (hv : v.isPlain = true) (w : Value) :
    v.same w = true ↔
      (∃ x y, v = .float x ∧ w = .float y ∧ x.same y = true) ∨ v = w ∧ ∀ x, v ≠ .float x := by
  cases v with
  | list | type => cases hv
  | _ => cases w <;> simp [Value.same]

theorem Value.same_list_iff (as bs : List Value) : (Value.list as).same (.list bs) = true
    ↔ List.Forall₂ (fun v w : Value => v.same w = true) as bs := by
  rw [Value.same_list, sameItems_iff, forall₂_iff_rel]

theorem Config.Composed.nodup {c : Config} (h : c.Composed) : (Dictionary.names c).Nodup := by
  obtain ⟨pairs, rfl, -⟩ := h
  exact Dictionary.nodup_names_ofPairs pairs

theorem Config.Composed.value {c : Config} (h : c.Composed) {n : String} {v : Value}
    (hmem : (n, v) ∈ c) : v.Composed := by
  obtain ⟨pairs, rfl, hpairs⟩ := h
  exact hpairs _ (Dictionary.ofPairs_subset pairs hmem)

/-- **Either side of an option can be compared with the other**: what is found under a name with the
own value, or the own value with what is found.  The values are composed again, so this goes for
each option that they hold. -/
theorem Config.same_eq_found {c d : Config} (hc : c.Composed) (hd : d.Composed) :
    c.same d = (c.length == d.length &&
      c.all fun p => (Dictionary.find? p.1 d).any fun w => w.same p.2) := by
  rw [Config.same, Bool.eq_iff_iff, Bool.and_eq_true, Bool.and_eq_true, sameOptions_iff,
    List.all_eq_true]
  refine and_congr_right fun _ => forall₂_congr fun p hp => ?_
  rw [Option.any_eq_true]
  refine exists_congr fun w => and_congr_right fun hw => ?_
  rw [Value.comparison.symm (hc.value hp) (hd.value (Dictionary.mem_of_find? hw))]

theorem Config.same_iff_equalMaps {c d : Config} (hc : c.Composed) (hd : d.Composed) :
    c.same d = true ↔ c.EqualMaps d :=
  (Config.same_iff hc.nodup hd.nodup).trans Config.equalMaps_iff.symm

/-- **Equality of options is equality of maps.**

Options that were entered one by one, in any order and any number of times, are equal exactly when
the same names are set and equal values are found under each.  There are as many on both sides then,
and each is found on the other side with an equal value, whichever of the two values is compared
with the other.  Values are equal as plain values, as lists item by item, or as identifiers of one
name and equal options, so that this holds at every depth.  Nothing else than what is found under
names counts.  On options, identifiers and values alike, equality is symmetric and transitive, is
blind to the order of entry at every depth, and is reflexive exactly on what holds no float that is
not a number. -/
theorem config_equality :
    (∀ c d : Config, c.Composed → d.Composed → (c.same d = true ↔ c.EqualMaps d))
      ∧ (∀ c d : Config, c.Composed → d.Composed → c.same d = (c.length == d.length &&
          c.all fun p => (Dictionary.find? p.1 d).any fun w => w.same p.2))
      ∧ (∀ a b : Identifier,
          a.same b = true ↔ a.name = b.name ∧ a.config.same b.config = true)
      ∧ (∀ v w : Value, v.same w = true ↔
          (v.isPlain = true ∧
            ((∃ x y, v = .float x ∧ w = .float y ∧ x.same y = true)
              ∨ v = w ∧ ∀ x, v ≠ .float x))
          ∨ (∃ as bs, v = .list as ∧ w = .list bs
            ∧ List.Forall₂ (fun v w : Value => v.same w = true) as bs)
          ∨ ∃ a b, v = .type a ∧ w = .type b ∧ a.same b = true)
      ∧ (∀ c c' d : Config, c.Composed → c'.Composed → d.Composed →
          (∀ n, Dictionary.find? n c = Dictionary.find? n c') →
          c.same d = c'.same d ∧ d.same c = d.same c')
      ∧ Comparison Config.Composed Config.same optionsFloats Config.Reorders
      ∧ Comparison Identifier.Composed Identifier.same Identifier.floats Identifier.Reorders
      ∧ Comparison Value.Composed Value.same Value.floats Value.Reorders := by
  refine ⟨fun c d => Config.same_iff_equalMaps, fun c d => Config.same_eq_found, fun a b => ?_,
    fun v w => ?_, ?_, Config.comparison, Identifier.comparison, Value.comparison⟩
  · rw [Identifier.same_eq, Bool.and_eq_true, beq_iff_eq]
  · cases v with
    | list as => cases w <;> simp [Value.same, Value.isPlain, ← Value.same_list_iff]
    | type a => cases w <;> simp [Value.same, Value.isPlain]
    | _ =>
        rw [Value.same_iff_of_isPlain rfl]
        simp [Value.isPlain]
  · intro c c' d hc hc' hd hfound
    have hsame : c.same d = c'.same d := by
      rw [Bool.eq_iff_iff, Config.same_iff hc.nodup hd.nodup, Config.same_iff hc'.nodup hd.nodup]
      simp only [hfound]
    refine ⟨hsame, ?_⟩
    rw [Config.comparison.symm hd hc, Config.comparison.symm hd hc', hsame]

/-- A list type with a bound, its options set in one order. -/
def boundedList : List (String × Value) := [("item", .text "Int"), ("max", .int 3)]

/-- A ratio and the list type. -/
def ratioFirst : List (String × Value) :=
  [("ratio", .float ⟨0⟩), ("of", .type ⟨"List", Dictionary.ofPairs boundedList⟩)]

/-- The same in the other order at both depths, with one option set twice and the other zero. -/
def ratioLast : List (String × Value) :=
  [("of", .null), ("ratio", .float ⟨0x8000000000000000⟩),
    ("of", .type ⟨"List", Dictionary.ofPairs boundedList.reverse⟩)]

theorem composed_of {name : String} {pairs : List (String × Value)}
    (h : ∀ p ∈ pairs, p.2.isPlain = true) :
    (Value.type ⟨name, Dictionary.ofPairs pairs⟩).Composed :=
  .type (.ofPairs name fun p hp => .plain (h p hp))

theorem composed_ratioFirst : Config.Composed (Dictionary.ofPairs ratioFirst) := by
  refine ⟨ratioFirst, rfl, ?_⟩
  simp only [ratioFirst, List.forall_mem_cons]
  exact ⟨.plain rfl, composed_of (by decide), by simp⟩

theorem composed_ratioLast : Config.Composed (Dictionary.ofPairs ratioLast) := by
  refine ⟨ratioLast, rfl, ?_⟩
  simp only [ratioLast, List.forall_mem_cons]
  exact ⟨.plain rfl, .plain rfl, composed_of (by decide), by simp⟩

/-- Both orders of entry give equal maps, and what the first holds is equal to itself. -/
theorem ratio_orders_equal :
    Config.EqualMaps (Dictionary.ofPairs ratioFirst) (Dictionary.ofPairs ratioLast)
      ∧ Config.same (Dictionary.ofPairs ratioLast) (Dictionary.ofPairs ratioFirst) = true
      ∧ Config.same (Dictionary.ofPairs ratioFirst) (Dictionary.ofPairs ratioFirst) = true := by
  have hsame : Config.same (Dictionary.ofPairs ratioFirst) (Dictionary.ofPairs ratioLast) = true :=
    by decide +kernel
  obtain ⟨hmaps, -, -, -, -, hcomparison, -⟩ := config_equality
  refine ⟨(hmaps _ _ composed_ratioFirst composed_ratioLast).1 hsame, ?_, ?_⟩
  · rw [hcomparison.symm composed_ratioLast composed_ratioFirst, hsame]
  · exact (hcomparison.refl_iff composed_ratioFirst).2 (by decide +kernel)

end SchemaGraph
