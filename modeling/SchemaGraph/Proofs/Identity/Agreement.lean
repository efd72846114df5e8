/-
**Agreement of identifiers.**

Options are a set: identifiers agree when they have one name and the same options, whatever the
order in which the options were set, at every depth.  How floats are compared is left open, since
keys tell bits apart and equality does not.  Both texts of an identifier are functions of what
agreement bit by bit preserves.

Main definitions:

* `Value.agrees`, `Identifier.agrees` — agreement, for a given comparison of floats;
* `Binary64.identical` — the comparison of floats bit by bit;
* `Value.Distinct`, `Identifier.Distinct` — no option is set twice, at any depth.

Main results:

* `Value.nested_induction` — induction along lists and identifiers in values;
* `Identifier.agrees_iff` — agreement is one name, and agreement of what is found under each option;
* `Identifier.Distinct.withOption` — setting an option sets none twice;
* `Identifier.texts_eq` — **identifiers that agree bit by bit have the same texts**.
-/

import SchemaGraph.Identity.Canonical
import SchemaGraph.Identity.Validity

set_option autoImplicit false

namespace SchemaGraph

open Decimal (Binary64)

/-! ### Induction along nesting -/

/-- A value that holds no other values. -/
def Value.isPlain : Value → Bool
  | .list _ => false
  | .type _ => false
  | _ => true

/-- What holds of plain values, of a list when it does of its items, and of an identifier when it
does of its options, holds of all values. -/
theorem Value.nested_induction {P : Value → Prop} (plain : ∀ v, v.isPlain = true → P v)
    (list : ∀ items, (∀ v ∈ items, P v) → P (.list items))
    (type : ∀ id : Identifier, (∀ p ∈ id.config, P p.2) → P (.type id)) (v : Value) : P v := by
  refine @Value.rec P (fun id => ∀ p ∈ id.config, P p.2) (fun items => ∀ v ∈ items, P v)
    (fun options => ∀ p ∈ options, P p.2) (fun p => P p.2) ?null ?bool ?int ?float ?text list type
    ?identifier ?noItem ?item ?noOption ?option ?pair v
  case null => exact plain .null rfl
  case bool => exact fun b => plain (.bool b) rfl
  case int => exact fun n => plain (.int n) rfl
  case float => exact fun x => plain (.float x) rfl
  case text => exact fun s => plain (.text s) rfl
  case identifier => exact fun _ _ h => h
  case noItem => exact fun _ h => absurd h List.not_mem_nil
  case item => exact fun _ _ hv hitems => List.forall_mem_cons.2 ⟨hv, hitems⟩
  case noOption => exact fun _ h => absurd h List.not_mem_nil
  case option => exact fun _ _ hp hoptions => List.forall_mem_cons.2 ⟨hp, hoptions⟩
  case pair => exact fun _ _ h => h

/-! ### Agreement -/

/-- Equality of floats, bit by bit. -/
def Decimal.Binary64.identical (x y : Binary64) : Bool := x.bits == y.bits

theorem Decimal.Binary64.identical_iff (x y : Binary64) : x.identical y = true ↔ x = y := by
  cases x
  cases y
  simp [identical]

mutual

/-- Agreement of values: lists item by item, identifiers without regard to the order of their
options, floats as the comparison says, and all else exactly. -/
def Value.agrees (floats : Binary64 → Binary64 → Bool) : Value → Value → Bool
  | .null, .null => true
  | .bool a, .bool b => a == b
  | .int m, .int n => m == n
  | .float x, .float y => floats x y
  | .text s, .text t => s == t
  | .list as, .list bs => itemsAgree floats as bs
  | .type a, .type b => a.agrees floats b
  | _, _ => false
termination_by structural v => v

/-- Agreement of identifiers: one name, the same option names, and under each of them values that
agree. -/
def Identifier.agrees (floats : Binary64 → Binary64 → Bool) : Identifier → Identifier → Bool
  | ⟨m, as⟩, ⟨n, bs⟩ =>
    m == n && (Dictionary.names bs).all (fun k => (Dictionary.find? k as).isSome)
      && optionsAgree floats as bs
termination_by structural a => a

/-- Agreement of lists, item by item. -/
def itemsAgree (floats : Binary64 → Binary64 → Bool) : List Value → List Value → Bool
  | [], [] => true
  | a :: as, b :: bs => a.agrees floats b && itemsAgree floats as bs
  | _, _ => false
termination_by structural as => as

/-- Every listed option stands in the dictionary with a value that agrees. -/
def optionsAgree (floats : Binary64 → Binary64 → Bool) : List (String × Value) → Config → Bool
  | [], _ => true
  | (n, v) :: as, bs =>
    (match Dictionary.find? n bs with
      | some w => v.agrees floats w
      | none => false) && optionsAgree floats as bs
termination_by structural as => as

end

variable {floats : Binary64 → Binary64 → Bool}

theorem optionsAgree_iff (as bs : Config) :
    optionsAgree floats as bs = true
      ↔ ∀ p ∈ as, ∃ w, Dictionary.find? p.1 bs = some w ∧ p.2.agrees floats w = true := by
  induction as with
  | nil => simp [optionsAgree]
  | cons p as ih =>
      obtain ⟨n, v⟩ := p
      rw [optionsAgree, Bool.and_eq_true, ih, List.forall_mem_cons]
      cases Dictionary.find? n bs <;> simp

/-- Identifiers agree when they have one name, and when under every option both have values that
agree or neither has one. -/
theorem Identifier.agrees_iff {a b : Identifier} (ha : (Dictionary.names a.config).Nodup) :
    a.agrees floats b = true ↔ a.name = b.name ∧
      ∀ n, Option.Rel (fun v w => v.agrees floats w = true) (a.option? n) (b.option? n) := by
  obtain ⟨name, as⟩ := a
  obtain ⟨name', bs⟩ := b
  simp only [Identifier.agrees, Bool.and_eq_true, beq_iff_eq, List.all_eq_true, optionsAgree_iff,
    Identifier.option?, Identifier.config]
  rw [and_assoc]
  refine and_congr_right fun _ => ⟨?_, ?_⟩
  · rintro ⟨hnames, hvalues⟩ n
    cases hn : Dictionary.find? n as with
    | none =>
        have hnone : Dictionary.find? n bs = none := by
          rw [Dictionary.find?_eq_none_iff]
          intro hmem
          have hsome := hnames n hmem
          rw [hn] at hsome
          exact Bool.noConfusion hsome
        rw [hnone]
        exact .none
    | some v =>
        obtain ⟨w, hw, hagree⟩ := hvalues (n, v) (Dictionary.mem_of_find? hn)
        rw [hw]
        exact .some hagree
  · intro hfound
    constructor
    · intro n hn
      have hsome := (Dictionary.find?_isSome_iff n bs).2 hn
      have hrel := hfound n
      cases hb : Dictionary.find? n bs with
      | none => simp [hb] at hsome
      | some w =>
          rw [hb] at hrel
          generalize Dictionary.find? n as = found at hrel
          cases hrel
          rfl
    · rintro ⟨n, v⟩ hp
      have hv := (Dictionary.mem_iff_find? ha n v).1 hp
      have hrel := hfound n
      rw [Identifier.config] at hv
      rw [hv] at hrel
      generalize Dictionary.find? n bs = found at hrel ⊢
      cases hrel with
      | some hagree => exact ⟨_, rfl, hagree⟩

/-! ### Distinct option names -/

mutual

/-- No option is set twice in an identifier that the value holds. -/
def Value.Distinct : Value → Prop
  | .list items => ItemsDistinct items
  | .type id => id.Distinct
  | _ => True
termination_by structural v => v

/-- No option is set twice, here or in an identifier that an option holds. -/
def Identifier.Distinct : Identifier → Prop
  | ⟨_, options⟩ => (Dictionary.names options).Nodup ∧ OptionsDistinct options
termination_by structural id => id

/-- No option is set twice in an identifier that an item holds. -/
def ItemsDistinct : List Value → Prop
  | [] => True
  | v :: items => v.Distinct ∧ ItemsDistinct items
termination_by structural items => items

/-- No option is set twice in an identifier that an option holds. -/
def OptionsDistinct : List (String × Value) → Prop
  | [] => True
  | (_, v) :: options => v.Distinct ∧ OptionsDistinct options
termination_by structural options => options

end

@[simp] theorem Value.distinct_list (items : List Value) :
    (Value.list items).Distinct ↔ ∀ v ∈ items, v.Distinct := by
  rw [Value.Distinct]
  induction items with
  | nil => simp [ItemsDistinct]
  | cons v items ih => rw [ItemsDistinct, ih, List.forall_mem_cons]

@[simp] theorem Value.distinct_type (id : Identifier) :
    (Value.type id).Distinct ↔ id.Distinct := by
  rw [Value.Distinct]

theorem Value.distinct_of_isPlain {v : Value} (h : v.isPlain = true) : v.Distinct := by
  cases v with
  | list items => cases h
  | type id => cases h
  | _ => exact trivial

theorem optionsDistinct_iff (options : Config) :
    OptionsDistinct options ↔ ∀ p ∈ options, p.2.Distinct := by
  induction options with
  | nil => simp [OptionsDistinct]
  | cons p options ih => rw [OptionsDistinct, ih, List.forall_mem_cons]

theorem Identifier.distinct_iff (id : Identifier) :
    id.Distinct ↔ (Dictionary.names id.config).Nodup ∧ ∀ p ∈ id.config, p.2.Distinct := by
  cases id
  rw [Identifier.Distinct, optionsDistinct_iff, Identifier.config]

theorem Identifier.distinct_bare (name : String) : (Identifier.bare name).Distinct := by
  simp [Identifier.distinct_iff, Identifier.bare, Identifier.config, Dictionary.names]

/-- Setting an option sets none twice. -/
theorem Identifier.Distinct.withOption {id : Identifier} (hid : id.Distinct) (name : String)
    {value : Value} (hvalue : value.Distinct) : (id.withOption name value).Distinct := by
  rw [Identifier.distinct_iff] at hid ⊢
  refine ⟨Dictionary.nodup_names_set hid.1 name value, ?_⟩
  rintro ⟨n, v⟩ hp
  have hv : Dictionary.find? n (Dictionary.set name value id.config) = some v :=
    (Dictionary.mem_iff_find? (Dictionary.nodup_names_set hid.1 name value) n v).1 hp
  rw [Dictionary.find?_set] at hv
  split at hv
  · rw [Option.some.injEq] at hv
    exact hv ▸ hvalue
  · exact hid.2 (n, v) (Dictionary.mem_of_find? hv)

/-! ### Texts -/

/-- Lists that agree are mapped alike by what does not tell apart items that agree. -/
theorem map_eq_of_itemsAgree {f : Value → String} {as bs : List Value}
    (h : itemsAgree floats as bs = true)
    (hf : ∀ v ∈ as, ∀ w ∈ bs, v.agrees floats w = true → f v = f w) : as.map f = bs.map f := by
  induction as generalizing bs with
  | nil =>
      cases bs with
      | nil => rfl
      | cons w bs => simp [itemsAgree] at h
  | cons v as ih =>
      cases bs with
      | nil => simp [itemsAgree] at h
      | cons w bs =>
          rw [itemsAgree, Bool.and_eq_true] at h
          have hhead := hf v List.mem_cons_self w List.mem_cons_self h.1
          have htail := ih h.2 fun x hx y hy =>
            hf x (List.mem_cons_of_mem v hx) y (List.mem_cons_of_mem w hy)
          rw [List.map_cons, List.map_cons, hhead, htail]

/-- Options that agree have one order by name, with what does not tell apart values that agree. -/
theorem sorted_eq_of_agrees {f : Value → String} {a b : Identifier}
    (ha : (Dictionary.names a.config).Nodup) (hb : (Dictionary.names b.config).Nodup)
    (h : a.agrees floats b = true)
    (hf : ∀ p ∈ a.config, ∀ q ∈ b.config, p.2.agrees floats q.2 = true → f p.2 = f q.2) :
    Dictionary.sorted (a.config.map fun p => (p.1, f p.2))
      = Dictionary.sorted (b.config.map fun p => (p.1, f p.2)) := by
  have hnames : ∀ d : Config, Dictionary.names (d.map fun p => (p.1, f p.2)) = Dictionary.names d :=
    fun d => by rw [Dictionary.names, List.map_map]; rfl
  refine Dictionary.sorted_eq_of_find? (by rwa [hnames]) (by rwa [hnames]) fun n => ?_
  rw [Dictionary.find?_map, Dictionary.find?_map]
  have hrel := ((Identifier.agrees_iff ha).1 h).2 n
  unfold Identifier.option? at hrel
  generalize hv : Dictionary.find? n a.config = found at hrel ⊢
  generalize hw : Dictionary.find? n b.config = found' at hrel ⊢
  cases hrel with
  | none => rfl
  | some hagree =>
      exact congrArg some (hf _ (Dictionary.mem_of_find? hv) _ (Dictionary.mem_of_find? hw) hagree)

/-- Plain values that agree bit by bit are the same. -/
theorem Value.eq_of_agrees {v w : Value} (hv : v.isPlain = true)
    (h : v.agrees Binary64.identical w = true) : v = w := by
  cases v <;> cases w <;>
    simp_all [Value.isPlain, Value.agrees, Binary64.identical_iff]

/-- A plain value agrees with itself. -/
theorem Value.agrees_self {v : Value} (hv : v.isPlain = true) :
    v.agrees Binary64.identical v = true := by
  cases v with
  | float x => exact (Binary64.identical_iff x x).2 rfl
  | list items => cases hv
  | type id => cases hv
  | _ => simp [Value.agrees]

theorem Value.canonical_list (items : List Value) :
    (Value.list items).canonical = "[" ++ ",".intercalate (items.map Value.canonical) ++ "]" := by
  rw [Value.canonical, canonicalItems_eq_map]

theorem Value.display_list (items : List Value) :
    (Value.list items).display = "[" ++ ", ".intercalate (items.map Value.display) ++ "]" := by
  rw [Value.display, displayItems_eq_map]

/-- Identifiers have the same texts when they agree and their values do not tell them apart. -/
theorem Identifier.texts_eq_of_values {a b : Identifier} (ha : a.Distinct) (hb : b.Distinct)
    (h : a.agrees floats b = true)
    (hvalues : ∀ p ∈ a.config, ∀ q ∈ b.config, p.2.agrees floats q.2 = true →
      p.2.canonical = q.2.canonical ∧ p.2.display = q.2.display) :
    a.canonical = b.canonical ∧ a.display = b.display := by
  have hda := ((Identifier.distinct_iff a).1 ha).1
  have hdb := ((Identifier.distinct_iff b).1 hb).1
  have hc := sorted_eq_of_agrees (f := Value.canonical) hda hdb h fun p hp q hq hpq =>
    (hvalues p hp q hq hpq).1
  have hd := sorted_eq_of_agrees (f := Value.display) hda hdb h fun p hp q hq hpq =>
    (hvalues p hp q hq hpq).2
  have hname := ((Identifier.agrees_iff hda).1 h).1
  have hbare : a.isBare = b.isBare := by
    have hlen : a.config.length = b.config.length := by
      simpa [Dictionary.sorted] using congrArg List.length hc
    rw [Identifier.isBare, Identifier.isBare, Bool.eq_iff_iff, List.isEmpty_iff_length_eq_zero,
      List.isEmpty_iff_length_eq_zero, hlen]
  rw [Identifier.canonical_eq, Identifier.canonical_eq, Identifier.display_eq,
    Identifier.display_eq, hname, hbare, hc, hd]
  exact ⟨rfl, rfl⟩

/-- Values that agree bit by bit have the same texts. -/
theorem Value.texts_eq (v : Value) : ∀ w : Value, v.Distinct → w.Distinct →
    v.agrees Binary64.identical w = true → v.canonical = w.canonical ∧ v.display = w.display := by
  induction v using Value.nested_induction with
  | plain v hv =>
      intro w _ _ h
      rw [Value.eq_of_agrees hv h]
      exact ⟨rfl, rfl⟩
  | list items ih =>
      intro w hv hw h
      cases w with
      | list items' =>
          rw [Value.distinct_list] at hv hw
          rw [Value.agrees] at h
          have hc := map_eq_of_itemsAgree (f := Value.canonical) h fun x hx y hy hxy =>
            (ih x hx y (hv x hx) (hw y hy) hxy).1
          have hd := map_eq_of_itemsAgree (f := Value.display) h fun x hx y hy hxy =>
            (ih x hx y (hv x hx) (hw y hy) hxy).2
          rw [Value.canonical_list, Value.canonical_list, Value.display_list, Value.display_list,
            hc, hd]
          exact ⟨rfl, rfl⟩
      | _ => simp [Value.agrees] at h
  | type id ih =>
      intro w hv hw h
      cases w with
      | type id' =>
          rw [Value.distinct_type] at hv hw
          rw [Value.agrees] at h
          obtain ⟨hc, hd⟩ := Identifier.texts_eq_of_values hv hw h fun p hp q hq =>
            ih p hp q.2 (((Identifier.distinct_iff id).1 hv).2 p hp)
              (((Identifier.distinct_iff id').1 hw).2 q hq)
          rw [Value.canonical, Value.canonical, Value.display, Value.display, hc, hd]
          exact ⟨rfl, rfl⟩
      | _ => simp [Value.agrees] at h

/-- **Identifiers that agree bit by bit have the same texts.** -/
theorem Identifier.texts_eq {a b : Identifier} (ha : a.Distinct) (hb : b.Distinct)
    (h : a.agrees Binary64.identical b = true) :
    a.canonical = b.canonical ∧ a.display = b.display :=
  Identifier.texts_eq_of_values ha hb h fun p hp q hq =>
    Value.texts_eq p.2 q.2 (((Identifier.distinct_iff a).1 ha).2 p hp)
      (((Identifier.distinct_iff b).1 hb).2 q hq)

end SchemaGraph
