/-
**What texts are type expressions.**

The reader of type expressions walks over bytes and skips white bytes before each part, so a text is
a mere name exactly when it is one after the white space around it is taken away; what is read is
the name without the white space.  A character that is no single byte begins with a byte of no
class, so such a text is read as nothing.

Main definitions:

* `isName` — the characters of a name;
* `trimmed`, `unspaced` — a text without the white space around it, and without any;
* `TypeExpr.Single` — null is excluded once at most at every depth.

Main results:

* `textBytes_of_ascii`, `ascii_of_textBytes` — the bytes of a text of single bytes are its
  characters;
* `readType_name`, `name_of_readType` — how a name is read;
* `read_eq_named_iff` — **which texts are read as a name**;
* `single_of_read` — no text is read as an expression that excludes null twice.
-/

import Mathlib.Data.List.DropRight
import SchemaGraph.Proofs.Hash.Lanes
import SchemaGraph.TypeExpr.Reader

set_option autoImplicit false

namespace SchemaGraph

/-! ### Characters and bytes -/

/-- The character is a single byte. -/
def isAscii (c : Char) : Bool := c.toNat < 128

theorem isAscii_of_isWhite {c : Char} (h : isWhite c = true) : isAscii c = true := by
  simp only [isWhite, Bool.or_eq_true, decide_eq_true_eq] at h
  rcases h with (((rfl | rfl) | rfl) | rfl) | rfl <;> rfl

theorem isAscii_of_isNamePart {c : Char} (h : isNamePart c = true) : isAscii c = true := by
  have hle : ∀ d : Char, c ≤ d → d.toNat < 128 → isAscii c = true := by
    intro d hd h128
    simp only [isAscii, decide_eq_true_eq]
    exact Nat.lt_of_le_of_lt hd h128
  simp only [isNamePart, isNameStart, Bool.or_eq_true, Bool.and_eq_true, decide_eq_true_eq] at h
  rcases h with ((⟨-, h⟩ | ⟨-, h⟩) | rfl) | ⟨-, h⟩
  · exact hle 'Z' h (by decide)
  · exact hle 'z' h (by decide)
  · rfl
  · exact hle '9' h (by decide)

/-- No white character is part of a name. -/
theorem isWhite_of_isNamePart {c : Char} (h : isNamePart c = true) : isWhite c = false := by
  by_contra hw
  simp only [isWhite, Bool.not_eq_false, Bool.or_eq_true, decide_eq_true_eq] at hw
  rcases hw with (((rfl | rfl) | rfl) | rfl) | rfl <;> simp [isNamePart, isNameStart] at h

theorem isNamePart_of_isNameStart {c : Char} (h : isNameStart c = true) : isNamePart c = true := by
  rw [isNamePart, h, Bool.true_or]

theorem textBytes_ofList (cs : List Char) :
    textBytes (String.ofList cs)
      = cs.flatMap fun c => (String.utf8EncodeChar c).map fun b => Char.ofNat b.toNat := by
  rw [textBytes, String.toUTF8, String.toByteArray_ofList, List.utf8Encode, List.data_toByteArray,
    List.map_flatMap]

theorem encode_of_ascii {c : Char} (h : isAscii c = true) :
    (String.utf8EncodeChar c).map (fun b => Char.ofNat b.toNat) = [c] := by
  simp only [isAscii, decide_eq_true_eq] at h
  have hsize : c.utf8Size = 1 := by
    rw [Char.utf8Size_eq_one_iff, UInt32.le_iff_toNat_le]
    exact Nat.le_of_lt_succ h
  have hbyte : c.val.toUInt8.toNat = c.toNat := by
    rw [UInt32.toNat_toUInt8]
    exact Nat.mod_eq_of_lt (Nat.lt_trans h (by decide))
  rw [String.utf8EncodeChar_eq_singleton hsize, List.map_singleton, hbyte, Char.ofNat_toNat]

/-- A character that is no single byte begins with a byte of no class. -/
theorem encode_of_not_ascii {c : Char} (h : isAscii c = false) :
    ∃ d ds, (String.utf8EncodeChar c).map (fun b => Char.ofNat b.toNat) = d :: ds ∧
      isAscii d = false := by
  have hhigh : ∀ n, 128 ≤ n → n < 256 → isAscii (Char.ofNat (UInt8.ofNat n).toNat) = false := by
    intro n hle hlt
    have hvalid : n.isValidChar := Or.inl (Nat.lt_trans hlt (by decide))
    have hn : (Char.ofNat n).toNat = n := by
      rw [Char.ofNat, dif_pos hvalid]
      rfl
    rw [UInt8.toNat_ofNat', Nat.mod_eq_of_lt hlt, isAscii, hn]
    exact decide_eq_false (Nat.not_lt.2 hle)
  have hgt : ¬ c.val.toNat ≤ 127 := by
    intro hle
    simp only [isAscii, decide_eq_false_iff_not] at h
    exact h (Nat.lt_succ_of_le hle)
  simp only [String.utf8EncodeChar, if_neg hgt]
  split
  · exact ⟨_, _, rfl, hhigh _ (by omega) (by omega)⟩
  · split
    · exact ⟨_, _, rfl, hhigh _ (by omega) (by omega)⟩
    · exact ⟨_, _, rfl, hhigh _ (by omega) (by omega)⟩

theorem textBytes_of_ascii {s : String} (h : ∀ c ∈ s.toList, isAscii c = true) :
    textBytes s = s.toList := by
  rw [← String.ofList_toList (s := s), textBytes_ofList, String.toList_ofList]
  calc s.toList.flatMap (fun c => (String.utf8EncodeChar c).map fun b => Char.ofNat b.toNat)
      = s.toList.flatMap (fun c => [c]) := List.flatMap_congr fun c hc => encode_of_ascii (h c hc)
    _ = s.toList := List.flatMap_singleton' _

theorem ascii_of_textBytes {s : String} (h : ∀ c ∈ textBytes s, isAscii c = true) :
    ∀ c ∈ s.toList, isAscii c = true := by
  intro c hc
  rw [← String.ofList_toList (s := s), textBytes_ofList] at h
  by_contra hascii
  obtain ⟨d, ds, hencode, hhigh⟩ := encode_of_not_ascii (Bool.eq_false_iff.2 hascii)
  rw [h d (List.mem_flatMap.2 ⟨c, hc, hencode ▸ List.mem_cons_self⟩)] at hhigh
  exact Bool.noConfusion hhigh

/-! ### Names -/

/-- The characters of a name. -/
def isName : List Char → Bool
  | [] => false
  | c :: cs => isNameStart c && cs.all isNamePart

/-- A text without the white space around it. -/
def trimmed (s : String) : String :=
  String.ofList ((s.toList.dropWhile isWhite).rdropWhile isWhite)

theorem isNamePart_of_isName {name : List Char} (h : isName name = true) :
    ∀ c ∈ name, isNamePart c = true := by
  cases name with
  | nil => exact fun c hc => absurd hc List.not_mem_nil
  | cons c cs =>
      rw [isName, Bool.and_eq_true, List.all_eq_true] at h
      exact List.forall_mem_cons.2 ⟨isNamePart_of_isNameStart h.1, h.2⟩

theorem dropWhile_append_of_head {p : Char → Bool} {as bs : List Char} (has : ∀ a ∈ as, p a = true)
    (hbs : ∀ b ∈ bs.head?, p b = false) : (as ++ bs).dropWhile p = bs := by
  rw [List.dropWhile_append_of_pos has]
  cases bs with
  | nil => rfl
  | cons b bs => rw [List.dropWhile_cons_of_neg (by simp [hbs b rfl])]

theorem takeWhile_append_of_head {p : Char → Bool} {as bs : List Char} (has : ∀ a ∈ as, p a = true)
    (hbs : ∀ b ∈ bs.head?, p b = false) : (as ++ bs).takeWhile p = as := by
  rw [List.takeWhile_append_of_pos has]
  cases bs with
  | nil => simp
  | cons b bs => rw [List.takeWhile_cons_of_neg (by simp [hbs b rfl]), List.append_nil]

section Padded

variable {before name after : List Char}

theorem ascii_padded (hb : ∀ c ∈ before, isWhite c = true) (hn : isName name = true)
    (ha : ∀ c ∈ after, isWhite c = true) :
    ∀ c ∈ before ++ (name ++ after), isAscii c = true := by
  simp only [List.mem_append]
  rintro c (hc | hc | hc)
  · exact isAscii_of_isWhite (hb c hc)
  · exact isAscii_of_isNamePart (isNamePart_of_isName hn c hc)
  · exact isAscii_of_isWhite (ha c hc)

/-- The white space around a name is what is trimmed. -/
theorem trimmed_padded (hb : ∀ c ∈ before, isWhite c = true) (hn : isName name = true)
    (ha : ∀ c ∈ after, isWhite c = true) :
    trimmed (String.ofList (before ++ (name ++ after))) = String.ofList name := by
  have hpart := isNamePart_of_isName hn
  have hdrop : (before ++ (name ++ after)).dropWhile isWhite = name ++ after := by
    refine dropWhile_append_of_head hb fun c hc => ?_
    cases name with
    | nil => simp [isName] at hn
    | cons d ds =>
        obtain rfl : d = c := Option.some.inj hc
        exact isWhite_of_isNamePart (hpart d List.mem_cons_self)
  have hrdrop : (name ++ after).rdropWhile isWhite = name := by
    rw [List.rdropWhile, List.reverse_append,
      dropWhile_append_of_head (fun c hc => ha c (List.mem_reverse.1 hc)) fun c hc => ?_,
      List.reverse_reverse]
    have hmem : c ∈ name := List.mem_reverse.1 (List.mem_of_mem_head? hc)
    exact isWhite_of_isNamePart (hpart c hmem)
  rw [trimmed, String.toList_ofList, hdrop, hrdrop]

/-- A text is what is trimmed of it, between white space. -/
theorem eq_padded (s : String) : ∃ before after, (∀ c ∈ before, isWhite c = true) ∧
    (∀ c ∈ after, isWhite c = true) ∧ s.toList = before ++ ((trimmed s).toList ++ after) := by
  refine ⟨s.toList.takeWhile isWhite, (s.toList.dropWhile isWhite).rtakeWhile isWhite,
    fun c hc => List.mem_takeWhile_imp hc, fun c hc => List.mem_rtakeWhile_imp hc, ?_⟩
  rw [trimmed, String.toList_ofList, List.rdropWhile_append_rtakeWhile,
    List.takeWhile_append_dropWhile]

/-- A name is read between white space. -/
theorem readType_name (hb : ∀ c ∈ before, isWhite c = true) (hn : isName name = true)
    (ha : ∀ c ∈ after, isWhite c = true) :
    readType (before ++ (name ++ after)) = .ok (.named (String.ofList name), []) := by
  have hskip : skipWhite after = [] := List.dropWhile_eq_nil_iff.2 ha
  have hpart := isNamePart_of_isName hn
  obtain ⟨c, cs, rfl⟩ : ∃ c cs, name = c :: cs := by
    cases name with
    | nil => simp [isName] at hn
    | cons c cs => exact ⟨c, cs, rfl⟩
  have hstart : isNameStart c = true := by
    rw [isName, Bool.and_eq_true] at hn
    exact hn.1
  have hafter : ∀ d ∈ after.head?, isNamePart d = false := by
    intro d hd
    by_contra hnamed
    have hwhite := isWhite_of_isNamePart (Bool.not_eq_false _ ▸ hnamed)
    rw [ha d (List.mem_of_mem_head? hd)] at hwhite
    exact Bool.noConfusion hwhite
  have hwhite : skipWhite (before ++ (c :: cs ++ after)) = c :: (cs ++ after) := by
    refine dropWhile_append_of_head hb fun d hd => ?_
    obtain rfl : c = d := Option.some.inj hd
    exact isWhite_of_isNamePart (hpart c List.mem_cons_self)
  have hcs : ∀ d ∈ cs, isNamePart d = true := fun d hd => hpart d (List.mem_cons_of_mem c hd)
  have hread : readName (c :: (cs ++ after)) = some (String.ofList (c :: cs), after) := by
    rw [readName, if_pos hstart, takeWhile_append_of_head hcs hafter,
      dropWhile_append_of_head hcs hafter]
  rw [readType_eq, hwhite]
  split
  · rename_i hbracket
    obtain ⟨rfl, -⟩ := List.cons.inj hbracket
    simp [isNameStart] at hstart
  · rw [hread]
    simp only [readMark, hskip]

end Padded

/-! ### Texts without their white space -/

/-- A text without its white space. -/
def unspaced (s : String) : List Char := s.toList.filter fun c => !isWhite c

theorem filter_of_white {cs : List Char} (h : ∀ c ∈ cs, isWhite c = true) :
    (cs.filter fun c => !isWhite c) = [] := by
  refine List.filter_eq_nil_iff.2 fun c hc => ?_
  rw [h c hc]
  exact Bool.false_ne_true

theorem filter_of_isName {cs : List Char} (h : isName cs = true) :
    (cs.filter fun c => !isWhite c) = cs := by
  refine List.filter_eq_self.2 fun c hc => ?_
  rw [isWhite_of_isNamePart (isNamePart_of_isName h c hc)]
  rfl

/-- A name has no white space in it. -/
theorem unspaced_of_isName {s : String} (h : isName s.toList = true) : unspaced s = s.toList :=
  filter_of_isName h

/-- White space around a text is all that is trimmed. -/
theorem unspaced_trimmed (s : String) : unspaced (trimmed s) = unspaced s := by
  obtain ⟨before, after, hb, ha, hs⟩ := eq_padded s
  rw [unspaced, unspaced, hs, List.filter_append, List.filter_append, filter_of_white hb,
    filter_of_white ha, List.nil_append, List.append_nil]

/-! ### Reading names -/

theorem isNamed_readMark_list (e : TypeExpr) (cs : List Char) :
    (readMark (.list e) cs).1.isNamed = false := by
  unfold readMark
  split <;> rfl

/-- What is read as a name begins with the name, after white space. -/
theorem name_of_readType {cs rest : List Char} {name : String}
    (h : readType cs = .ok (.named name, rest)) : ∃ before after,
      (∀ c ∈ before, isWhite c = true) ∧ isName name.toList = true ∧
        cs = before ++ (name.toList ++ after) ∧ rest = skipWhite after := by
  have hcs : cs = cs.takeWhile isWhite ++ skipWhite cs := List.takeWhile_append_dropWhile.symm
  rw [readType_eq] at h
  split at h
  · split at h
    · cases h
    · split at h
      · rename_i inner _ _ _ rest' _
        have hnamed := isNamed_readMark_list inner rest'
        rw [Except.ok.inj h] at hnamed
        cases hnamed
      · cases h
  · split at h
    · rename_i name' after hname
      obtain ⟨c, ds, hskip⟩ : ∃ c ds, skipWhite cs = c :: ds := by
        cases hs : skipWhite cs with
        | nil => simp [hs, readName] at hname
        | cons c ds => exact ⟨c, ds, rfl⟩
      rw [hskip] at hcs hname
      rw [readName, Option.ite_none_right_eq_some, Option.some.injEq, Prod.mk.injEq] at hname
      obtain ⟨hstart, rfl, rfl⟩ := hname
      rw [readMark] at h
      split at h
      · cases h
      · obtain ⟨hnamed, rfl⟩ := Prod.mk.inj (Except.ok.inj h)
        obtain rfl := TypeExpr.named.inj hnamed
        refine ⟨cs.takeWhile isWhite, ds.dropWhile isNamePart, fun c hc => List.mem_takeWhile_imp hc,
          ?_, ?_, rfl⟩
        · rw [String.toList_ofList, isName, hstart, Bool.true_and, List.all_eq_true]
          exact fun d hd => List.mem_takeWhile_imp hd
        · rw [String.toList_ofList, List.cons_append, List.takeWhile_append_dropWhile, ← hcs]
    · cases h

/-- **Which texts are read as a name**: those that are one after the white space around them is
taken away, and that is the name. -/
theorem read_eq_named_iff {s name : String} :
    TypeExpr.read s = .ok (.named name) ↔ name = trimmed s ∧ isName name.toList = true := by
  constructor
  · intro h
    unfold TypeExpr.read at h
    split at h
    · cases h
    · rename_i e rest hread
      split at h
      · rename_i hempty
        obtain rfl := Except.ok.inj h
        obtain ⟨before, after, hb, hname, hbytes, rfl⟩ := name_of_readType hread
        have ha : ∀ c ∈ after, isWhite c = true := by
          rwa [List.isEmpty_iff, skipWhite, skipWhite, List.dropWhile_idempotent,
            List.dropWhile_eq_nil_iff] at hempty
        have hascii : ∀ c ∈ textBytes s, isAscii c = true := by
          rw [hbytes]
          exact ascii_padded hb hname ha
        rw [textBytes_of_ascii (ascii_of_textBytes hascii)] at hbytes
        refine ⟨?_, hname⟩
        have htrimmed := trimmed_padded hb hname ha
        rwa [← hbytes, String.ofList_toList, String.ofList_toList, eq_comm] at htrimmed
      · cases h
  · rintro ⟨rfl, hname⟩
    obtain ⟨before, after, hb, ha, hs⟩ := eq_padded s
    have hascii : ∀ c ∈ s.toList, isAscii c = true := by
      rw [hs]
      exact ascii_padded hb hname ha
    rw [TypeExpr.read, textBytes_of_ascii hascii, hs, readType_name hb hname ha]
    simp [skipWhite, String.ofList_toList]

/-! ### Exclusions of null -/

/-- Null is excluded once at most at every depth. -/
def TypeExpr.Single : TypeExpr → Prop
  | .named _ => True
  | .list e => e.Single
  | .nonNull e => e.Single ∧ ∀ of, e ≠ .nonNull of

theorem single_readMark {e : TypeExpr} (he : e.Single) (hn : ∀ of, e ≠ .nonNull of)
    (cs : List Char) : (readMark e cs).1.Single := by
  unfold readMark
  split
  · exact ⟨he, hn⟩
  · exact he

theorem single_of_readType {cs rest : List Char} {e : TypeExpr}
    (h : readType cs = .ok (e, rest)) : e.Single := by
  induction hn : cs.length using Nat.strong_induction_on generalizing cs rest e with
  | _ n ih =>
      rw [readType_eq] at h
      split at h
      · rename_i after hskip
        split at h
        · cases h
        · rename_i inner rest' hread
          have hlt : after.length < n := by
            have := length_skipWhite_le cs
            rw [hskip, List.length_cons, hn] at this
            omega
          have hinner : inner.Single := ih _ hlt hread rfl
          split at h
          · have hmark := single_readMark (e := .list inner) hinner (by simp)
            rename_i last _
            have := hmark last
            rwa [Except.ok.inj h] at this
          · cases h
      · split at h
        · rename_i name last _
          have := single_readMark (e := .named name) trivial (by simp) last
          rwa [Except.ok.inj h] at this
        · cases h

/-- **No text is read as an expression that excludes null twice.** -/
theorem single_of_read {s : String} {e : TypeExpr} (h : TypeExpr.read s = .ok e) : e.Single := by
  unfold TypeExpr.read at h
  split at h
  · cases h
  · rename_i e' rest hread
    split at h
    · exact Except.ok.inj h ▸ single_of_readType hread
    · cases h

end SchemaGraph
