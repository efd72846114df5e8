/-
**Equality and agreement.**

Equality of identifiers counts the options and looks up each of them on the other side, and compares
floats as numbers.  Keys are derived from texts, which tell bits apart.  The two notions part at one
point: the zeros of both signs are equal numbers, and have texts of their own.

Main definitions:

* `Value.floats`, `Identifier.floats` — the floats that are held, at any depth;
* `Binary64.isNegativeZero` — the zero that is written with a sign;
* `plusZero`, `minusZero` — equal identifiers with different keys.

Main results:

* `Identifier.agrees_of_same` — equal identifiers agree, up to the comparison of floats;
* `Identifier.fault?_iff_of_same` — equal identifiers have a stable form together;
* `Identifier.agrees_of_unsigned` — equal identifiers agree bit by bit, unless one of them holds a
  negative zero;
* `Key.ofIdentifier_iff_of_same` — **equal identifiers that agree bit by bit have one key**;
* `zero_keys_differ` — and otherwise they may have two.
-/

import Mathlib.Data.List.Perm.Basic
import SchemaGraph.Identity.Key
import SchemaGraph.Proofs.Identity.Agreement

set_option autoImplicit false

namespace SchemaGraph

open Decimal (Binary64)

/-! ### Zeros -/

namespace Decimal.Binary64

variable {x y : Binary64}

/-- The zero that is written with a sign. -/
def isNegativeZero (x : Binary64) : Bool := x.isZero && x.negative

theorem eq_zero_of_isZero (hz : x.isZero = true) (hn : x.isNegativeZero = false) : x = ⟨0⟩ := by
  have hsign : x.negative = false := by simpa [isNegativeZero, hz] using hn
  have hzero : x.exponentField = 0 ∧ x.fraction = 0 := by simpa [isZero] using hz
  simp only [exponentField, fraction, Nat.pow_eq] at hzero
  simp only [negative, decide_eq_false_iff_not, Nat.not_le, Nat.pow_eq] at hsign
  have hbits : x.bits.toNat = 0 := by omega
  cases x
  exact congrArg mk (UInt64.toNat_inj.1 hbits)

/-- Numbers that are equal are identical, unless one of them is the negative zero. -/
theorem eq_of_same (h : x.same y = true) (hx : x.isNegativeZero = false)
    (hy : y.isNegativeZero = false) : x = y := by
  simp only [same, Bool.and_eq_true, Bool.or_eq_true, beq_iff_eq] at h
  rcases h.2 with hbits | ⟨hzx, hzy⟩
  · cases x
    cases y
    exact congrArg mk hbits
  · rw [eq_zero_of_isZero hzx hx, eq_zero_of_isZero hzy hy]

/-- Numbers that are equal are finite together. -/
theorem isFinite_eq_of_same (h : x.same y = true) : x.isFinite = y.isFinite := by
  have hzero : ∀ z : Binary64, z.isZero = true → z.isFinite = true := by
    intro z hz
    have hexp : z.exponentField = 0 ∧ z.fraction = 0 := by simpa [isZero] using hz
    simp [isFinite, hexp.1]
  simp only [same, Bool.and_eq_true, Bool.or_eq_true, beq_iff_eq] at h
  rcases h.2 with hbits | ⟨hzx, hzy⟩
  · rw [isFinite, isFinite, exponentField, exponentField, hbits]
  · rw [hzero x hzx, hzero y hzy]

end Decimal.Binary64

/-! ### The floats of an identifier -/

mutual

/-- The floats that a value holds, at any depth. -/
def Value.floats : Value → List Binary64
  | .float x => [x]
  | .list items => itemsFloats items
  | .type id => id.floats
  | _ => []
termination_by structural v => v

/-- The floats that the options of an identifier hold, at any depth. -/
def Identifier.floats : Identifier → List Binary64
  | ⟨_, options⟩ => optionsFloats options
termination_by structural id => id

/-- The floats that the items of a list hold. -/
def itemsFloats : List Value → List Binary64
  | [] => []
  | v :: items => v.floats ++ itemsFloats items
termination_by structural items => items

/-- The floats that options hold. -/
def optionsFloats : List (String × Value) → List Binary64
  | [] => []
  | (_, v) :: options => v.floats ++ optionsFloats options
termination_by structural options => options

end

theorem Value.mem_floats_list {items : List Value} {x : Binary64} :
    x ∈ (Value.list items).floats ↔ ∃ v ∈ items, x ∈ v.floats := by
  rw [Value.floats]
  induction items with
  | nil => simp [itemsFloats]
  | cons v items ih => simp [itemsFloats, ih]

theorem Identifier.mem_floats {id : Identifier} {x : Binary64} :
    x ∈ id.floats ↔ ∃ p ∈ id.config, x ∈ p.2.floats := by
  obtain ⟨name, options⟩ := id
  rw [Identifier.floats, Identifier.config]
  induction options with
  | nil => simp [optionsFloats]
  | cons p options ih => simp [optionsFloats, ih]

theorem Value.floats_type (id : Identifier) : (Value.type id).floats = id.floats := by
  rw [Value.floats]

/-! ### Equality is agreement -/

theorem sameOptions_iff (as bs : Config) :
    sameOptions as bs = true
      ↔ ∀ p ∈ as, ∃ w, Dictionary.find? p.1 bs = some w ∧ p.2.same w = true := by
  induction as with
  | nil => simp [sameOptions]
  | cons p as ih =>
      obtain ⟨n, v⟩ := p
      rw [sameOptions, Bool.and_eq_true, ih, List.forall_mem_cons]
      cases Dictionary.find? n bs <;> simp

/-- As many options, each of them found on the other side: then the other side has no more. -/
theorem names_subset_of_sameOptions {as bs : Config} (ha : (Dictionary.names as).Nodup)
    (hlen : as.length = bs.length) (h : sameOptions as bs = true) :
    Dictionary.names bs ⊆ Dictionary.names as := by
  have hsub : Dictionary.names as ⊆ Dictionary.names bs := by
    intro n hn
    obtain ⟨p, hp, rfl⟩ := List.mem_map.1 hn
    obtain ⟨w, hw, -⟩ := (sameOptions_iff as bs).1 h p hp
    exact List.mem_map.2 ⟨(p.1, w), Dictionary.mem_of_find? hw, rfl⟩
  have hle : (Dictionary.names bs).length ≤ (Dictionary.names as).length := by
    simp [Dictionary.names, hlen]
  exact ((List.subperm_of_subset ha hsub).perm_of_length_le hle).symm.subset

/-- Equal identifiers agree when the values of their options do that are equal. -/
theorem Identifier.agrees_of_values {floats : Binary64 → Binary64 → Bool} {a b : Identifier}
    (ha : (Dictionary.names a.config).Nodup) (h : a.same b = true)
    (hvalues : ∀ p ∈ a.config, ∀ q ∈ b.config, p.2.same q.2 = true →
      p.2.agrees floats q.2 = true) : a.agrees floats b = true := by
  obtain ⟨m, as⟩ := a
  obtain ⟨n, bs⟩ := b
  simp only [Identifier.same, Bool.and_eq_true, beq_iff_eq] at h
  obtain ⟨⟨hname, hlen⟩, hoptions⟩ := h
  simp only [Identifier.agrees, Bool.and_eq_true, beq_iff_eq, List.all_eq_true, optionsAgree_iff]
  refine ⟨⟨hname, fun k hk => ?_⟩, fun p hp => ?_⟩
  · rw [Dictionary.find?_isSome_iff]
    exact names_subset_of_sameOptions ha hlen hoptions hk
  · obtain ⟨w, hw, hsame⟩ := (sameOptions_iff as bs).1 hoptions p hp
    exact ⟨w, hw, hvalues p hp (p.1, w) (Dictionary.mem_of_find? hw) hsame⟩

theorem itemsAgree_of_same {floats : Binary64 → Binary64 → Bool} {as bs : List Value}
    (h : sameItems as bs = true)
    (hitems : ∀ v ∈ as, ∀ w ∈ bs, v.same w = true → v.agrees floats w = true) :
    itemsAgree floats as bs = true := by
  induction as generalizing bs with
  | nil =>
      cases bs with
      | nil => rfl
      | cons w bs => simp [sameItems] at h
  | cons v as ih =>
      cases bs with
      | nil => simp [sameItems] at h
      | cons w bs =>
          rw [sameItems, Bool.and_eq_true] at h
          rw [itemsAgree, Bool.and_eq_true]
          have hhead := hitems v List.mem_cons_self w List.mem_cons_self h.1
          have htail := ih h.2 fun x hx y hy =>
            hitems x (List.mem_cons_of_mem v hx) y (List.mem_cons_of_mem w hy)
          exact ⟨hhead, htail⟩

/-- Equal values agree, up to the comparison of floats. -/
theorem Value.agrees_of_same {floats : Binary64 → Binary64 → Bool} (v : Value) :
    ∀ w : Value, v.Distinct → v.same w = true →
      (∀ x ∈ v.floats, ∀ y ∈ w.floats, x.same y = true → floats x y = true) →
      v.agrees floats w = true := by
  induction v using Value.nested_induction with
  | plain v hv =>
      intro w _ h hfloats
      cases v <;> cases w <;> simp_all [Value.isPlain, Value.same, Value.agrees, Value.floats]
  | list items ih =>
      intro w hv h hfloats
      cases w with
      | list items' =>
          rw [Value.distinct_list] at hv
          rw [Value.same_list] at h
          rw [Value.agrees]
          refine itemsAgree_of_same h fun x hx y hy hxy => ih x hx y (hv x hx) hxy ?_
          intro z hz z' hz'
          exact hfloats z (Value.mem_floats_list.2 ⟨x, hx, hz⟩) z'
            (Value.mem_floats_list.2 ⟨y, hy, hz'⟩)
      | _ => simp [Value.same] at h
  | type id ih =>
      intro w hv h hfloats
      cases w with
      | type id' =>
          rw [Value.distinct_type, Identifier.distinct_iff] at hv
          rw [Value.same_type] at h
          rw [Value.agrees]
          refine Identifier.agrees_of_values hv.1 h fun p hp q hq hpq =>
            ih p hp q.2 (hv.2 p hp) hpq ?_
          intro z hz z' hz'
          rw [Value.floats_type, Value.floats_type] at hfloats
          exact hfloats z (Identifier.mem_floats.2 ⟨p, hp, hz⟩) z'
            (Identifier.mem_floats.2 ⟨q, hq, hz'⟩)
      | _ => simp [Value.same] at h

/-- **Equal identifiers agree, up to the comparison of floats.** -/
theorem Identifier.agrees_of_same {floats : Binary64 → Binary64 → Bool} {a b : Identifier}
    (ha : a.Distinct) (h : a.same b = true)
    (hfloats : ∀ x ∈ a.floats, ∀ y ∈ b.floats, x.same y = true → floats x y = true) :
    a.agrees floats b = true := by
  have htype : (Value.type a).agrees floats (.type b) = true :=
    Value.agrees_of_same _ _ ((Value.distinct_type a).2 ha) (by rw [Value.same_type, h])
      (by rw [Value.floats_type, Value.floats_type]; exact hfloats)
  rwa [Value.agrees] at htype

/-! ### Stable forms -/

/-- Identifiers that agree have a stable form together when the values of their options do. -/
theorem Identifier.fault?_iff_of_values {a b : Identifier} (ha : (Dictionary.names a.config).Nodup)
    (hb : (Dictionary.names b.config).Nodup) (h : a.agrees Binary64.same b = true)
    (hvalues : ∀ p ∈ a.config, ∀ q ∈ b.config, p.2.agrees Binary64.same q.2 = true →
      ∀ type option type' option' : String,
        p.2.fault? type option = none ↔ q.2.fault? type' option' = none) :
    a.fault? = none ↔ b.fault? = none := by
  obtain ⟨hname, hfound⟩ := (Identifier.agrees_iff ha).1 h
  rw [Identifier.fault?_eq, Identifier.fault?_eq, ← hname]
  split
  · rfl
  rw [optionsFault?_eq_none_iff, optionsFault?_eq_none_iff]
  constructor
  · rintro hall ⟨n, w⟩ hq
    have hw : b.option? n = some w := (Dictionary.mem_iff_find? hb n w).1 hq
    have hrel := hfound n
    rw [hw] at hrel
    cases hv : a.option? n with
    | none => simp [hv] at hrel
    | some v =>
        have hp : (n, v) ∈ a.config := Dictionary.mem_of_find? hv
        rw [hv, Option.rel_some_some] at hrel
        exact ⟨(hall _ hp).1, (hvalues _ hp _ hq hrel _ _ _ _).1 (hall _ hp).2⟩
  · rintro hall ⟨n, v⟩ hp
    have hv : a.option? n = some v := (Dictionary.mem_iff_find? ha n v).1 hp
    have hrel := hfound n
    rw [hv] at hrel
    cases hw : b.option? n with
    | none => simp [hw] at hrel
    | some w =>
        have hq : (n, w) ∈ b.config := Dictionary.mem_of_find? hw
        rw [hw, Option.rel_some_some] at hrel
        exact ⟨(hall _ hq).1, (hvalues _ hp _ hq hrel _ _ _ _).2 (hall _ hq).2⟩

theorem itemsFault?_iff_of_agree {as bs : List Value} {type option type' option' : String}
    (h : itemsAgree Binary64.same as bs = true)
    (hitems : ∀ v ∈ as, ∀ w ∈ bs, v.agrees Binary64.same w = true →
      (v.fault? type option = none ↔ w.fault? type' option' = none)) :
    itemsFault? type option as = none ↔ itemsFault? type' option' bs = none := by
  induction as generalizing bs with
  | nil =>
      cases bs with
      | nil => rfl
      | cons w bs => simp [itemsAgree] at h
  | cons v as ih =>
      cases bs with
      | nil => simp [itemsAgree] at h
      | cons w bs =>
          rw [itemsAgree, Bool.and_eq_true] at h
          have hhead := hitems v List.mem_cons_self w List.mem_cons_self h.1
          have htail := ih h.2 fun x hx y hy =>
            hitems x (List.mem_cons_of_mem v hx) y (List.mem_cons_of_mem w hy)
          rw [itemsFault?, itemsFault?, Option.or_eq_none_iff, Option.or_eq_none_iff, hhead, htail]

/-- Values that agree have a stable form together. -/
theorem Value.fault?_iff_of_agrees (v : Value) : ∀ w : Value, v.Distinct → w.Distinct →
    v.agrees Binary64.same w = true → ∀ type option type' option' : String,
      v.fault? type option = none ↔ w.fault? type' option' = none := by
  induction v using Value.nested_induction with
  | plain v hv =>
      intro w _ _ h type option type' option'
      cases v with
      | float x =>
          cases w with
          | float y =>
              rw [Value.agrees] at h
              rw [Value.fault?, Value.fault?, Binary64.isFinite_eq_of_same h]
              cases y.isFinite <;> simp
          | _ => simp [Value.agrees] at h
      | list items => simp [Value.isPlain] at hv
      | type id => simp [Value.isPlain] at hv
      | _ => cases w <;> simp_all [Value.agrees, Value.fault?]
  | list items ih =>
      intro w hv hw h type option type' option'
      cases w with
      | list items' =>
          rw [Value.distinct_list] at hv hw
          rw [Value.agrees] at h
          rw [Value.fault?, Value.fault?]
          exact itemsFault?_iff_of_agree h fun x hx y hy hxy =>
            ih x hx y (hv x hx) (hw y hy) hxy _ _ _ _
      | _ => simp [Value.agrees] at h
  | type id ih =>
      intro w hv hw h type option type' option'
      cases w with
      | type id' =>
          rw [Value.distinct_type, Identifier.distinct_iff] at hv hw
          rw [Value.agrees] at h
          rw [Value.fault?, Value.fault?]
          exact Identifier.fault?_iff_of_values hv.1 hw.1 h fun p hp q hq =>
            ih p hp q.2 (hv.2 p hp) (hw.2 q hq)
      | _ => simp [Value.agrees] at h

/-- **Equal identifiers have a stable form together.** -/
theorem Identifier.fault?_iff_of_same {a b : Identifier} (ha : a.Distinct) (hb : b.Distinct)
    (h : a.same b = true) : a.fault? = none ↔ b.fault? = none := by
  have hagree : a.agrees Binary64.same b = true :=
    Identifier.agrees_of_same ha h fun x _ y _ hxy => hxy
  have htype := Value.fault?_iff_of_agrees (.type a) (.type b) ((Value.distinct_type a).2 ha)
    ((Value.distinct_type b).2 hb) (by rwa [Value.agrees]) "" "" "" ""
  rwa [Value.fault?, Value.fault?] at htype

/-! ### Keys -/

/-- No float, at any depth, is the negative zero. -/
def Identifier.Unsigned (id : Identifier) : Prop := ∀ x ∈ id.floats, x.isNegativeZero = false

instance (id : Identifier) : Decidable id.Unsigned :=
  inferInstanceAs (Decidable (∀ x ∈ id.floats, x.isNegativeZero = false))

/-- Equal identifiers agree bit by bit, unless one of them holds a negative zero. -/
theorem Identifier.agrees_of_unsigned {a b : Identifier} (ha : a.Distinct) (h : a.same b = true)
    (hza : a.Unsigned) (hzb : b.Unsigned) : a.agrees Binary64.identical b = true :=
  Identifier.agrees_of_same ha h fun x hx y hy hxy =>
    (Binary64.identical_iff x y).2 (Binary64.eq_of_same hxy (hza x hx) (hzb y hy))

theorem canonicalIdentity_eq_of_agrees {a b : Identifier} (ha : a.Distinct) (hb : b.Distinct)
    (h : a.agrees Binary64.identical b = true) {c d : Option Context}
    (hscope : c.map Context.name = d.map Context.name) :
    canonicalIdentity a c = canonicalIdentity b d := by
  have htext := (Identifier.texts_eq ha hb h).1
  cases c with
  | none =>
      cases d with
      | none => simp only [canonicalIdentity, htext]
      | some d => simp at hscope
  | some c =>
      cases d with
      | none => simp at hscope
      | some d =>
          simp only [Option.map_some, Option.some.injEq] at hscope
          simp only [canonicalIdentity, htext, hscope]

/-- **Equal identifiers that agree bit by bit have one key**, or neither has one. -/
theorem Key.ofIdentifier_iff_of_same {a b : Identifier} (ha : a.Distinct) (hb : b.Distinct)
    (h : a.same b = true) (hbits : a.agrees Binary64.identical b = true) {c d : Option Context}
    (hscope : c.map Context.name = d.map Context.name) (k : Key) :
    Key.ofIdentifier a c = .ok k ↔ Key.ofIdentifier b d = .ok k := by
  rw [Key.ofIdentifier_eq_ok_iff, Key.ofIdentifier_eq_ok_iff, Identifier.fault?_iff_of_same ha hb h,
    canonicalIdentity_eq_of_agrees ha hb hbits hscope]

/-! ### Zeros of both signs -/

/-- A type with a zero among its options. -/
def plusZero : Identifier := (Identifier.bare "T").withOption "x" (.float ⟨0⟩)

/-- The same type with the negative zero. -/
def minusZero : Identifier := (Identifier.bare "T").withOption "x" (.float ⟨0x8000000000000000⟩)

theorem distinct_zero (x : Binary64) :
    ((Identifier.bare "T").withOption "x" (.float x)).Distinct :=
  (Identifier.distinct_bare "T").withOption "x" trivial

/-- Zeros of both signs are equal, and give two keys. -/
theorem zero_keys_differ : plusZero.Distinct ∧ minusZero.Distinct ∧
    plusZero.same minusZero = true ∧ ∃ k j, Key.ofIdentifier plusZero none = .ok k ∧
      Key.ofIdentifier minusZero none = .ok j ∧ k ≠ j := by
  refine ⟨distinct_zero _, distinct_zero _, by decide +kernel, _, _,
    (Key.ofIdentifier_eq_ok_iff _ _ _).2 ⟨by decide +kernel, rfl⟩,
    (Key.ofIdentifier_eq_ok_iff _ _ _).2 ⟨by decide +kernel, rfl⟩, by decide +kernel⟩

end SchemaGraph
