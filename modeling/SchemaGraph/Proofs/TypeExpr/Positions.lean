/-
**Where the reader of type expressions stands.**

A name is cut out of its text, from one position among the bytes to another.  A text can be cut
only at the boundaries of its characters, and the reader goes over it byte by byte, so nothing but
the bytes that it goes over can keep it out of the middle of a character.  Each of them is a
character of its own: white space, brackets, the exclamation mark and what names consist of.  The
first byte of any longer character is of no class, and there the reader stands still.

To speak of positions, the reader is written down once more, as a cursor in the text that keeps
account of where it has been, what it has cut out and which of its calls have called themselves.
Cutting where there is no boundary ends the reading at once.

Main definitions:

* `AtBoundary`, `part?` — where a text can be cut, and what is cut out of it;
* `Cursor`, `Cursor.scanType`, `TypeExpr.scan` — the reader with its position;
* `Cursor.Steady` — what is true of the cursor wherever it stands;
* `Cursor.Mirrors` — the cursor and the reader of the bytes that are left come to the same.

Main results:

* `AtBoundary.succ` — a single byte after a boundary ends at one;
* `Cursor.Steady.advance`, `Cursor.Steady.scanType` — what is true of the cursor stays true, for one
  byte and for an expression;
* `Cursor.Steady.mirrors_scanType` — what is read does not depend on how positions are kept;
* `scan_stays_on_boundaries` — **the reader stands at boundaries only, cuts there, and calls itself
  further on**.
-/

import SchemaGraph.Proofs.TypeExpr.Grammar

set_option autoImplicit false

namespace SchemaGraph

/-! ### Where a text can be cut -/

/-- The position is not beyond the text, and in the middle of no character. -/
def AtBoundary (s : String) (p : Nat) : Prop := (String.Pos.Raw.mk p).IsValid s

instance (s : String) (p : Nat) : Decidable (AtBoundary s p) :=
  inferInstanceAs (Decidable ((String.Pos.Raw.mk p).IsValid s))

/-- What stands between two positions, if they are boundaries in order. -/
def part? (s : String) (start stop : Nat) : Option String :=
  if h : AtBoundary s start ∧ AtBoundary s stop ∧ start ≤ stop then
    some (s.extract (s.pos ⟨start⟩ h.1) (s.pos ⟨stop⟩ h.2.1))
  else none

theorem length_textBytes (s : String) : (textBytes s).length = s.utf8ByteSize := by
  simp [textBytes]

theorem textBytes_append (s t : String) : textBytes (s ++ t) = textBytes s ++ textBytes t := by
  simp [textBytes]

theorem utf8Size_of_ascii {c : Char} (h : isAscii c = true) : c.utf8Size = 1 := by
  simpa using congrArg List.length (encode_of_ascii h)

theorem atBoundary_zero (s : String) : AtBoundary s 0 := String.Pos.Raw.isValid_zero

theorem AtBoundary.le {s : String} {p : Nat} (h : AtBoundary s p) : p ≤ s.utf8ByteSize :=
  h.le_utf8ByteSize

/-- **A single byte after a boundary ends at one.** -/
theorem AtBoundary.succ {s : String} {p : Nat} {b : Char} (h : AtBoundary s p)
    (hb : (textBytes s)[p]? = some b) (ha : isAscii b = true) : AtBoundary s (p + 1) := by
  obtain ⟨before, after, rfl, hp⟩ := String.Pos.Raw.isValid_iff_exists_append.1 h
  obtain rfl : p = before.utf8ByteSize := congrArg String.Pos.Raw.byteIdx hp
  obtain ⟨cs, rfl⟩ := after.exists_eq_ofList
  rw [textBytes_append, ← length_textBytes, List.getElem?_append_right le_rfl, Nat.sub_self,
    ← List.head?_eq_getElem?, textBytes_ofList] at hb
  cases cs with
  | nil => cases hb
  | cons c cs =>
      -- a character that begins with such a byte has no other
      have hc : isAscii c = true := by
        by_contra hc
        obtain ⟨d, ds, hencode, hd⟩ := encode_of_not_ascii (Bool.eq_false_iff.2 hc)
        rw [List.flatMap_cons, hencode] at hb
        obtain rfl : d = b := Option.some.inj hb
        rw [ha] at hd
        cases hd
      refine String.Pos.Raw.isValid_iff_exists_append.2
        ⟨before.push c, String.ofList cs, ?_, ?_⟩
      · rw [← String.toList_inj]
        simp
      · rw [String.rawEndPos_push]
        simp [String.Pos.Raw.ext_iff, utf8Size_of_ascii hc]

/-- Between boundaries there is something, which consists of the bytes there. -/
theorem exists_part {s : String} {start stop : Nat} (hstart : AtBoundary s start)
    (hstop : AtBoundary s stop) (hle : start ≤ stop) : ∃ t, part? s start stop = some t ∧
      textBytes t = ((textBytes s).drop start).take (stop - start) := by
  have hoffset : ∀ (p : Nat) (h : AtBoundary s p), (s.pos ⟨p⟩ h).offset = ⟨p⟩ :=
    fun _ _ => String.offset_pos
  refine ⟨_, dif_pos ⟨hstart, hstop, hle⟩, ?_⟩
  simp [textBytes, hoffset, List.map_drop, List.map_take]

/-- A text whose bytes are single ones consists of them. -/
theorem eq_ofList_of_textBytes {t : String} {cs : List Char} (h : textBytes t = cs)
    (ha : ∀ c ∈ cs, isAscii c = true) : t = String.ofList cs := by
  rw [← h] at ha ⊢
  rw [textBytes_of_ascii (ascii_of_textBytes ha), String.ofList_toList]

/-! ### The cursor -/

/-- What the reader ends with if it has no expression. -/
inductive Halt where
  /-- the text is refused -/
  | refused (problem : NotationProblem)
  /-- the text was to be cut where it cannot be cut -/
  | panicked
deriving DecidableEq, Repr

/-- A position in a text, and an account of the way there. -/
structure Cursor where
  pos : Nat := 0
  /-- the positions before, in order -/
  past : List Nat := []
  /-- from where to where the text was cut -/
  cuts : List (Nat × Nat) := []
  /-- for each call that called itself, where it began and where the call in it began -/
  calls : List (Nat × Nat) := []
deriving DecidableEq, Repr, Inhabited

namespace Cursor

/-- All positions on the way, in order. -/
def visited (c : Cursor) : List Nat := c.past ++ [c.pos]

/-- The byte at the position. -/
def byte? (s : String) (c : Cursor) : Option Char := (textBytes s)[c.pos]?

/-- The bytes from the position on. -/
def left (s : String) (c : Cursor) : List Char := (textBytes s).drop c.pos

/-- Over one byte. -/
def advance (c : Cursor) : Cursor := { c with pos := c.pos + 1, past := c.past ++ [c.pos] }

/-- The text is to be cut from a position on to where the cursor is. -/
def cutFrom (start : Nat) (c : Cursor) : Cursor := { c with cuts := c.cuts ++ [(start, c.pos)] }

/-- A call that began at a position calls itself. -/
def callFrom (start : Nat) (c : Cursor) : Cursor := { c with calls := c.calls ++ [(start, c.pos)] }

theorem pos_advance (c : Cursor) : c.advance.pos = c.pos + 1 := rfl

theorem lt_length_of_byte? {s : String} {c : Cursor} {b : Char} (h : c.byte? s = some b) :
    c.pos < (textBytes s).length :=
  (List.getElem?_eq_some_iff.1 h).1

/-- Over all bytes of a class, which may be another one at another position. -/
def advanceWhile (s : String) (p : Nat → Char → Bool) (c : Cursor) : Cursor :=
  match h : c.byte? s with
  | some b =>
    have := lt_length_of_byte? h
    if p c.pos b then c.advance.advanceWhile s p else c
  | none => c
termination_by (textBytes s).length - c.pos
decreasing_by simp only [advance]; omega

/-- Over white bytes. -/
def skipWhite (s : String) (c : Cursor) : Cursor := c.advanceWhile s fun _ => isWhite

/-- Over one byte, if it is the given one. -/
def eat? (s : String) (b : Char) (c : Cursor) : Option Cursor :=
  if c.byte? s = some b then some c.advance else none

/-- Over the bytes of a name, as many as there are. -/
def passName (s : String) (c : Cursor) : Cursor :=
  c.advanceWhile s fun p b => if p = c.pos then isNameStart b else isNamePart b

/-- A name, cut out of the text. -/
def scanName (s : String) (c : Cursor) : Except Halt String × Cursor :=
  if (c.passName s).pos = c.pos then (.error (.refused .expectedName), c.passName s)
  else
    match part? s c.pos (c.passName s).pos with
    | some name => (.ok name, (c.passName s).cutFrom c.pos)
    | none => (.error .panicked, (c.passName s).cutFrom c.pos)

/-- At most one exclamation mark after an expression. -/
def scanMark (s : String) (e : TypeExpr) (c : Cursor) : Except Halt TypeExpr × Cursor :=
  match (c.skipWhite s).eat? s '!' with
  | some after => (.ok (.nonNull e), after)
  | none => (.ok e, c.skipWhite s)

theorem eat?_eq_some_iff {s : String} {b : Char} {c after : Cursor} :
    c.eat? s b = some after ↔ c.byte? s = some b ∧ after = c.advance := by
  rw [eat?, Option.ite_none_right_eq_some, Option.some.injEq, eq_comm (a := c.advance)]

theorem advanceWhile_of_class {s : String} {p : Nat → Char → Bool} {c : Cursor} {b : Char}
    (hb : c.byte? s = some b) (hp : p c.pos b = true) :
    c.advanceWhile s p = c.advance.advanceWhile s p := by
  rw [advanceWhile]
  split
  · rename_i d hd
    obtain rfl : b = d := Option.some.inj (hb.symm.trans hd)
    exact if_pos hp
  · rename_i hnone
    rw [hb] at hnone
    cases hnone

theorem advanceWhile_of_no_class {s : String} {p : Nat → Char → Bool} {c : Cursor}
    (h : ∀ b ∈ c.byte? s, p c.pos b = false) : c.advanceWhile s p = c := by
  rw [advanceWhile]
  split
  · rename_i b hb
    exact if_neg (Bool.eq_false_iff.1 (h b hb))
  · rfl

theorem le_advanceWhile (s : String) (p : Nat → Char → Bool) (c : Cursor) :
    c.pos ≤ (c.advanceWhile s p).pos := by
  fun_induction advanceWhile s p c with
  | case1 c b hb _ _ ih => exact Nat.le_of_succ_le ih
  | case2 => exact le_rfl
  | case3 => exact le_rfl

/-- A byte that is eaten after white space lies before the end, and not before the position. -/
theorem lt_of_eat? {s : String} {b : Char} {c after : Cursor}
    (h : (c.skipWhite s).eat? s b = some after) :
    c.pos < after.pos ∧ after.pos ≤ (textBytes s).length := by
  obtain ⟨hb, rfl⟩ := eat?_eq_some_iff.1 h
  exact ⟨Nat.lt_succ_of_le (le_advanceWhile s _ c), lt_length_of_byte? hb⟩

/-- An expression. -/
def scanType (s : String) (c : Cursor) : Except Halt TypeExpr × Cursor :=
  match h : (c.skipWhite s).eat? s '[' with
  | some inside =>
    have := lt_of_eat? h
    match (inside.callFrom c.pos).scanType s with
    | (.error halt, after) => (.error halt, after)
    | (.ok inner, after) =>
      match (after.skipWhite s).eat? s ']' with
      | some closed => closed.scanMark s (.list inner)
      | none => (.error (.refused .missingBracket), after.skipWhite s)
  | none =>
    match (c.skipWhite s).scanName s with
    | (.error halt, after) => (.error halt, after)
    | (.ok name, after) => after.scanMark s (.named name)
termination_by (textBytes s).length - c.pos
decreasing_by simp only [callFrom]; omega

end Cursor

/-- The expression that a text is, or what its reading ends with, and the way of the cursor. -/
def TypeExpr.scan (s : String) : Except Halt TypeExpr × Cursor :=
  match Cursor.scanType s {} with
  | (.error halt, c) => (.error halt, c)
  | (.ok e, c) =>
    if (c.skipWhite s).pos < s.utf8ByteSize then
      (.error (.refused .trailingInput), c.skipWhite s)
    else (.ok e, c.skipWhite s)

/-! ### What is true of the cursor -/

namespace Cursor

/-- What is true of the cursor wherever it stands. -/
structure Steady (s : String) (c : Cursor) : Prop where
  /-- it has gone byte by byte from the beginning -/
  past : c.past = List.range c.pos
  /-- it has been at boundaries only -/
  boundary : ∀ p ≤ c.pos, AtBoundary s p
  /-- it has cut only between positions where it has been -/
  cuts : ∀ cut ∈ c.cuts, cut.1 < cut.2 ∧ cut.2 ≤ c.pos
  /-- each call was made further on than its caller began -/
  calls : ∀ call ∈ c.calls, call.1 < call.2
  /-- a call was made at each bracket -/
  opened : c.calls.length = ((textBytes s).take c.pos).count '['

/-- A character of a single byte at which no call is made. -/
def isPlainByte (b : Char) : Bool := isAscii b && b ≠ '['

theorem isPlainByte_of_class {p : Char → Bool} (ha : ∀ b, p b = true → isAscii b = true)
    (hp : p '[' = false) {b : Char} (h : p b = true) : isPlainByte b = true := by
  have hne : b ≠ '[' := by
    rintro rfl
    rw [hp] at h
    cases h
  rw [isPlainByte, ha b h, decide_eq_true hne, Bool.true_and]

theorem isPlainByte_of_isWhite {b : Char} (h : isWhite b = true) : isPlainByte b = true :=
  isPlainByte_of_class (fun _ => isAscii_of_isWhite) rfl h

theorem isPlainByte_of_isNamePart {b : Char} (h : isNamePart b = true) : isPlainByte b = true :=
  isPlainByte_of_class (fun _ => isAscii_of_isNamePart) rfl h

theorem take_advance {s : String} {c : Cursor} {b : Char} (h : c.byte? s = some b) :
    (textBytes s).take c.advance.pos = (textBytes s).take c.pos ++ [b] := by
  rw [pos_advance, List.take_add_one, ← byte?, h, Option.toList_some]

namespace Steady

variable {s : String} {c : Cursor}

theorem initial (s : String) : Steady s {} where
  past := rfl
  boundary _ hp := Nat.le_zero.1 hp ▸ atBoundary_zero s
  cuts := nofun
  calls := nofun
  opened := rfl

/-- **Behind a single byte is another boundary.** -/
theorem boundary_advance {b : Char} (h : Steady s c) (hb : c.byte? s = some b)
    (ha : isAscii b = true) : ∀ p ≤ c.advance.pos, AtBoundary s p := by
  intro p hp
  rcases Nat.le_succ_iff.1 hp with hp | rfl
  · exact h.boundary p hp
  · exact (h.boundary c.pos le_rfl).succ hb ha

theorem past_advance (h : Steady s c) : c.advance.past = List.range c.advance.pos := by
  rw [advance, h.past, List.range_succ]

theorem cuts_advance (h : Steady s c) :
    ∀ cut ∈ c.advance.cuts, cut.1 < cut.2 ∧ cut.2 ≤ c.advance.pos :=
  fun cut hcut => (h.cuts cut hcut).imp_right Nat.le_succ_of_le

/-- Going over a byte at which no call is made keeps it true. -/
theorem advance {b : Char} (h : Steady s c) (hb : c.byte? s = some b)
    (hplain : isPlainByte b = true) : Steady s c.advance := by
  rw [isPlainByte, Bool.and_eq_true, decide_eq_true_eq] at hplain
  refine ⟨h.past_advance, h.boundary_advance hb hplain.1, h.cuts_advance, h.calls, ?_⟩
  rw [take_advance hb, List.count_append, List.count_singleton, ← h.opened]
  simp [hplain.2, Cursor.advance]

/-- Going over a bracket and into the call for what is in it keeps it true. -/
theorem enter {start : Nat} (h : Steady s c) (hb : c.byte? s = some '[') (hle : start ≤ c.pos) :
    Steady s (c.advance.callFrom start) := by
  refine ⟨h.past_advance, h.boundary_advance hb rfl, h.cuts_advance,
    List.forall_mem_append.2 ⟨h.calls, List.forall_mem_singleton.2 (Nat.lt_succ_of_le hle)⟩, ?_⟩
  rw [callFrom, take_advance hb, List.count_append, List.count_singleton_self, ← h.opened,
    List.length_append]
  rfl

theorem cutFrom {start : Nat} (h : Steady s c) (hlt : start < c.pos) :
    Steady s (c.cutFrom start) where
  past := h.past
  boundary := h.boundary
  cuts := List.forall_mem_append.2 ⟨h.cuts, List.forall_mem_singleton.2 ⟨hlt, le_rfl⟩⟩
  calls := h.calls
  opened := h.opened

theorem advanceWhile {p : Nat → Char → Bool} (hp : ∀ q b, p q b = true → isPlainByte b = true)
    (h : Steady s c) : Steady s (c.advanceWhile s p) := by
  fun_induction Cursor.advanceWhile s p c with
  | case1 c b hb _ hclass ih => exact ih (h.advance hb (hp _ _ hclass))
  | case2 => exact h
  | case3 => exact h

theorem skipWhite (h : Steady s c) : Steady s (c.skipWhite s) :=
  h.advanceWhile fun _ _ => isPlainByte_of_isWhite

theorem eat? {b : Char} {after : Cursor} (h : Steady s c) (hplain : isPlainByte b = true)
    (heat : c.eat? s b = some after) : Steady s after := by
  obtain ⟨hb, rfl⟩ := eat?_eq_some_iff.1 heat
  exact h.advance hb hplain

theorem passName (h : Steady s c) : Steady s (c.passName s) := by
  refine h.advanceWhile fun q b hb => ?_
  split at hb
  · exact isPlainByte_of_isNamePart (isNamePart_of_isNameStart hb)
  · exact isPlainByte_of_isNamePart hb

theorem scanName (h : Steady s c) : Steady s (c.scanName s).2 := by
  unfold Cursor.scanName
  split
  · exact h.passName
  · rename_i hne
    have hcut := h.passName.cutFrom (Nat.lt_of_le_of_ne (le_advanceWhile s _ c) (Ne.symm hne))
    split
    · exact hcut
    · exact hcut

theorem scanMark (h : Steady s c) (e : TypeExpr) : Steady s (c.scanMark s e).2 := by
  unfold Cursor.scanMark
  split
  · rename_i after heat
    exact h.skipWhite.eat? rfl heat
  · exact h.skipWhite

/-- The call inside a bracket begins further on than the one that makes it. -/
theorem inside {after : Cursor} (h : Steady s c)
    (heat : (c.skipWhite s).eat? s '[' = some after) : Steady s (after.callFrom c.pos) := by
  obtain ⟨hb, rfl⟩ := eat?_eq_some_iff.1 heat
  exact h.skipWhite.enter hb (le_advanceWhile s _ c)

/-- **Reading an expression keeps it true**, whatever comes of it. -/
theorem scanType (h : Steady s c) : Steady s (c.scanType s).2 := by
  -- the call inside a bracket begins where the account is true, and so it ends there
  fun_induction Cursor.scanType s c with
  | case1 c inside heat _ halt after hread ih =>
      have hafter := ih (h.inside heat)
      rwa [hread] at hafter
  | case2 c inside heat _ inner after hread closed hclose ih =>
      have hafter := ih (h.inside heat)
      rw [hread] at hafter
      exact (hafter.skipWhite.eat? rfl hclose).scanMark _
  | case3 c inside heat _ inner after hread _ ih =>
      have hafter := ih (h.inside heat)
      rw [hread] at hafter
      exact hafter.skipWhite
  | case4 c _ halt after hname =>
      have hafter := h.skipWhite.scanName
      rwa [hname] at hafter
  | case5 c _ name after hname =>
      have hafter := h.skipWhite.scanName
      rw [hname] at hafter
      exact hafter.scanMark _

end Steady

/-! ### What is cut out -/

section Cuts

variable {s : String} {c : Cursor}

theorem cuts_advanceWhile (s : String) (p : Nat → Char → Bool) (c : Cursor) :
    (c.advanceWhile s p).cuts = c.cuts := by
  fun_induction advanceWhile s p c with
  | case1 c b hb _ _ ih => exact ih
  | case2 => rfl
  | case3 => rfl

theorem cuts_skipWhite (s : String) (c : Cursor) : (c.skipWhite s).cuts = c.cuts :=
  cuts_advanceWhile s _ c

theorem cuts_of_eat? {b : Char} {after : Cursor} (h : (c.skipWhite s).eat? s b = some after) :
    after.cuts = c.cuts := by
  obtain ⟨-, rfl⟩ := eat?_eq_some_iff.1 h
  exact cuts_skipWhite s c

/-- An exclamation mark changes neither the name nor what was cut out. -/
theorem of_scanMark {e f : TypeExpr} {after : Cursor} (h : c.scanMark s e = (.ok f, after)) :
    f.root = e.root ∧ after.cuts = c.cuts := by
  unfold scanMark at h
  split at h
  · rename_i marked heat
    cases h
    exact ⟨rfl, cuts_of_eat? heat⟩
  · cases h
    exact ⟨rfl, cuts_skipWhite s c⟩

theorem cut_of_scanName {name : String} {after : Cursor} (h : c.scanName s = (.ok name, after)) :
    ∃ cut ∈ after.cuts, part? s cut.1 cut.2 = some name := by
  unfold scanName at h
  split at h
  · cases h
  · split at h
    · rename_i hpart
      cases h
      exact ⟨_, List.mem_append_right _ (List.mem_singleton_self _), hpart⟩
    · cases h

/-- The name of an expression is what was cut out of the text for it. -/
theorem cut_of_scanType {e : TypeExpr} {after : Cursor} (h : c.scanType s = (.ok e, after)) :
    ∃ cut ∈ after.cuts, part? s cut.1 cut.2 = some e.root := by
  fun_induction Cursor.scanType s c generalizing e after with
  | case1 => cases h
  | case2 c inside heat _ inner stop hread closed hclose ih =>
      obtain ⟨hroot, hcuts⟩ := of_scanMark h
      rw [hroot, hcuts, cuts_of_eat? hclose, TypeExpr.root]
      exact ih hread
  | case3 => cases h
  | case4 => cases h
  | case5 c _ name stop hname =>
      obtain ⟨hroot, hcuts⟩ := of_scanMark h
      rw [hroot, hcuts]
      exact cut_of_scanName hname

end Cuts

/-! ### What is left to be read -/

section Left

variable {s : String} {c : Cursor}

theorem byte?_eq_head? (s : String) (c : Cursor) : c.byte? s = (c.left s).head? :=
  List.head?_drop.symm

theorem left_of_byte? {b : Char} (h : c.byte? s = some b) :
    c.left s = b :: c.advance.left s := by
  obtain ⟨hlt, rfl⟩ := List.getElem?_eq_some_iff.1 h
  exact List.drop_eq_getElem_cons hlt

/-- The cursor goes over what is taken, and what is dropped is left. -/
theorem advanceWhile_eq {p : Nat → Char → Bool} {q : Char → Bool}
    (h : ∀ r, c.pos ≤ r → p r = q) :
    (c.advanceWhile s p).pos = c.pos + ((c.left s).takeWhile q).length ∧
      (c.advanceWhile s p).left s = (c.left s).dropWhile q := by
  fun_induction Cursor.advanceWhile s p c with
  | case1 c b hb _ hclass ih =>
      obtain ⟨hpos, hleft⟩ := ih fun r hr => h r (Nat.le_of_succ_le hr)
      rw [h c.pos le_rfl] at hclass
      rw [left_of_byte? hb, List.takeWhile_cons_of_pos hclass, List.dropWhile_cons_of_pos hclass]
      refine ⟨?_, hleft⟩
      rw [hpos, pos_advance, List.length_cons]
      omega
  | case2 c b hb _ hclass =>
      rw [h c.pos le_rfl] at hclass
      rw [left_of_byte? hb, List.takeWhile_cons_of_neg hclass, List.dropWhile_cons_of_neg hclass]
      exact ⟨rfl, rfl⟩
  | case3 c hb =>
      rw [byte?_eq_head?, List.head?_eq_none_iff] at hb
      rw [hb]
      exact ⟨rfl, rfl⟩

theorem left_skipWhite (s : String) (c : Cursor) :
    (c.skipWhite s).left s = SchemaGraph.skipWhite (c.left s) :=
  (advanceWhile_eq fun _ _ => rfl).2

theorem left_cutFrom (s : String) (start : Nat) (c : Cursor) :
    (c.cutFrom start).left s = c.left s := rfl

theorem left_callFrom (s : String) (start : Nat) (c : Cursor) :
    (c.callFrom start).left s = c.left s := rfl

theorem skipWhite_of_eat? {b : Char} {after : Cursor}
    (h : (c.skipWhite s).eat? s b = some after) :
    SchemaGraph.skipWhite (c.left s) = b :: after.left s := by
  obtain ⟨hb, rfl⟩ := eat?_eq_some_iff.1 h
  rw [← left_skipWhite]
  exact left_of_byte? hb

theorem ne_of_eat? {b : Char} (h : (c.skipWhite s).eat? s b = none) :
    ∀ d ∈ (SchemaGraph.skipWhite (c.left s)).head?, d ≠ b := by
  rintro d hd rfl
  rw [← left_skipWhite, ← byte?_eq_head?] at hd
  rw [eat?_eq_some_iff.2 ⟨hd, rfl⟩] at h
  cases h

theorem passName_of_start {b : Char} (hb : c.byte? s = some b) (hs : isNameStart b = true) :
    (c.passName s).pos = c.pos + (b :: (c.advance.left s).takeWhile isNamePart).length ∧
      (c.passName s).left s = (c.advance.left s).dropWhile isNamePart := by
  have hclass : (if c.pos = c.pos then isNameStart b else isNamePart b) = true := by
    rwa [if_pos rfl]
  have hparts : ∀ r, c.advance.pos ≤ r →
      (fun d => if r = c.pos then isNameStart d else isNamePart d) = isNamePart := by
    intro r hr
    funext d
    exact if_neg (Nat.ne_of_gt hr)
  obtain ⟨hpos, hleft⟩ := advanceWhile_eq (s := s) hparts
  rw [passName, advanceWhile_of_class hb hclass]
  refine ⟨?_, hleft⟩
  rw [hpos, pos_advance, List.length_cons]
  omega

theorem passName_of_no_start (h : ∀ b ∈ c.byte? s, isNameStart b = false) : c.passName s = c :=
  advanceWhile_of_no_class fun b hb => by rw [if_pos rfl, h b hb]

end Left

/-! ### The same is read -/

/-- The cursor comes to the same as the reader of the bytes that are left. -/
inductive Mirrors (s : String) :
    Except Halt TypeExpr × Cursor → Except NotationProblem (TypeExpr × List Char) → Prop where
  | ok (e : TypeExpr) (c : Cursor) : Mirrors s (.ok e, c) (.ok (e, c.left s))
  | refused (problem : NotationProblem) (c : Cursor) :
      Mirrors s (.error (.refused problem), c) (.error problem)

section Same

variable {s : String} {c : Cursor}

theorem mirrors_ok_iff {e : TypeExpr} {r : Except NotationProblem (TypeExpr × List Char)} :
    Mirrors s (.ok e, c) r ↔ r = .ok (e, c.left s) := by
  constructor
  · rintro ⟨⟩
    rfl
  · rintro rfl
    exact .ok e c

theorem mirrors_error_iff {halt : Halt} {r : Except NotationProblem (TypeExpr × List Char)} :
    Mirrors s (.error halt, c) r ↔ ∃ problem, halt = .refused problem ∧ r = .error problem := by
  constructor
  · rintro ⟨⟩
    exact ⟨_, rfl, rfl⟩
  · rintro ⟨problem, rfl, rfl⟩
    exact .refused problem c

/-- A name that is cut out of the text consists of the bytes that the cursor went over. -/
theorem Steady.scanName_of_start (h : Steady s c) {b : Char} (hb : c.byte? s = some b)
    (hs : isNameStart b = true) : c.scanName s
      = (.ok (String.ofList (b :: (c.advance.left s).takeWhile isNamePart)),
          (c.passName s).cutFrom c.pos) := by
  obtain ⟨hpos, -⟩ := passName_of_start hb hs
  have hlt : c.pos < (c.passName s).pos := by
    rw [hpos, List.length_cons]
    omega
  -- both ends are boundaries, so the text can be cut there
  obtain ⟨t, hpart, hbytes⟩ := exists_part (h.boundary c.pos le_rfl)
    (h.passName.boundary _ le_rfl) (Nat.le_of_lt hlt)
  rw [hpos, Nat.add_sub_cancel_left, ← left, left_of_byte? hb, List.length_cons,
    List.take_succ_cons, ← List.prefix_iff_eq_take.1 (List.takeWhile_prefix isNamePart)] at hbytes
  have hascii : ∀ d ∈ b :: (c.advance.left s).takeWhile isNamePart, isAscii d = true :=
    List.forall_mem_cons.2 ⟨isAscii_of_isNamePart (isNamePart_of_isNameStart hs),
      fun d hd => isAscii_of_isNamePart (List.mem_takeWhile_imp hd)⟩
  rw [Cursor.scanName, if_neg (Nat.ne_of_gt hlt), hpart, eq_ofList_of_textBytes hbytes hascii]

theorem scanName_of_no_start (h : ∀ b ∈ c.byte? s, isNameStart b = false) :
    c.scanName s = (.error (.refused .expectedName), c) := by
  rw [scanName, passName_of_no_start h, if_pos rfl]

/-- A name is cut out of the text as it is read from the bytes, and it can be cut out. -/
theorem Steady.readName_eq (h : Steady s c) :
    match c.scanName s with
    | (.ok name, after) => readName (c.left s) = some (name, after.left s)
    | (.error halt, _) => halt = .refused .expectedName ∧ readName (c.left s) = none := by
  by_cases hstart : ∃ b, c.byte? s = some b ∧ isNameStart b = true
  · obtain ⟨b, hb, hs⟩ := hstart
    rw [h.scanName_of_start hb hs, left_of_byte? hb, readName, if_pos hs]
    simp only [left_cutFrom, (passName_of_start hb hs).2]
  · have hnone : ∀ b ∈ c.byte? s, isNameStart b = false :=
      fun b hb => Bool.eq_false_iff.2 fun hs => hstart ⟨b, hb, hs⟩
    rw [scanName_of_no_start hnone, readName_eq_none_iff, ← byte?_eq_head?]
    exact ⟨rfl, hnone⟩

theorem mirrors_scanMark (s : String) (e : TypeExpr) (c : Cursor) :
    Mirrors s (c.scanMark s e) (.ok (readMark e (c.left s))) := by
  unfold scanMark
  split
  · rename_i after heat
    rw [readMark_of_mark (skipWhite_of_eat? heat)]
    exact .ok (.nonNull e) after
  · rename_i heat
    rw [readMark_of_no_mark (ne_of_eat? heat), ← left_skipWhite]
    exact .ok e (c.skipWhite s)

/-- **An expression is read from the position as from the bytes that are left there.** -/
theorem Steady.mirrors_scanType (h : Steady s c) :
    Mirrors s (c.scanType s) (readType (c.left s)) := by
  fun_induction Cursor.scanType s c with
  | case1 c inside heat _ halt after hread ih =>
      have hinner := ih (h.inside heat)
      rw [hread, mirrors_error_iff] at hinner
      obtain ⟨problem, rfl, hinner⟩ := hinner
      rw [readType_of_bracket (skipWhite_of_eat? heat), ← left_callFrom, hinner]
      exact .refused problem after
  | case2 c inside heat _ inner after hread closed hclose ih =>
      have hinner := ih (h.inside heat)
      rw [hread, mirrors_ok_iff] at hinner
      rw [readType_of_bracket (skipWhite_of_eat? heat), ← left_callFrom, hinner]
      simp only [skipWhite_of_eat? hclose]
      exact mirrors_scanMark s _ closed
  | case3 c inside heat _ inner after hread hclose ih =>
      have hinner := ih (h.inside heat)
      rw [hread, mirrors_ok_iff] at hinner
      rw [readType_of_bracket (skipWhite_of_eat? heat), ← left_callFrom, hinner]
      simp only
      split
      · rename_i rest hskip
        exact absurd rfl (ne_of_eat? hclose ']' (by rw [hskip]; rfl))
      · exact .refused .missingBracket (after.skipWhite s)
  | case4 c heat halt after hname =>
      have hread := h.skipWhite.readName_eq
      rw [hname] at hread
      obtain ⟨rfl, hread⟩ := hread
      rw [readType_of_no_bracket (ne_of_eat? heat), ← left_skipWhite, hread]
      exact .refused .expectedName after
  | case5 c heat name after hname =>
      have hread := h.skipWhite.readName_eq
      rw [hname] at hread
      rw [readType_of_no_bracket (ne_of_eat? heat), ← left_skipWhite, hread]
      exact mirrors_scanMark s (.named name) after

end Same

end Cursor

/-! ### Whole texts -/

theorem steady_scan (s : String) : (TypeExpr.scan s).2.Steady s := by
  have hsteady := (Cursor.Steady.initial s).scanType
  unfold TypeExpr.scan
  split
  · rename_i halt c hscan
    rwa [hscan] at hsteady
  · rename_i e c hscan
    rw [hscan] at hsteady
    split
    · exact hsteady.skipWhite
    · exact hsteady.skipWhite

theorem cut_of_scan {s : String} {e : TypeExpr} (h : (TypeExpr.scan s).1 = .ok e) :
    ∃ cut ∈ (TypeExpr.scan s).2.cuts, part? s cut.1 cut.2 = some e.root := by
  unfold TypeExpr.scan at h ⊢
  split at h
  · cases h
  · rename_i f c hscan
    split at h
    · cases h
    · rename_i hend
      cases h
      rw [if_neg hend, Cursor.cuts_skipWhite]
      exact Cursor.cut_of_scanType hscan

/-- A text is read in the same way whether or not positions are kept. -/
theorem scan_eq_read (s : String) : (TypeExpr.scan s).1 = (TypeExpr.read s).mapError .refused := by
  have hmirrors := (Cursor.Steady.initial s).mirrors_scanType
  have hleft : (({} : Cursor).left s) = textBytes s := List.drop_zero
  rw [hleft] at hmirrors
  unfold TypeExpr.scan TypeExpr.read
  split
  · rename_i halt c hscan
    rw [hscan, Cursor.mirrors_error_iff] at hmirrors
    obtain ⟨problem, rfl, hread⟩ := hmirrors
    rw [hread]
    rfl
  · rename_i e c hscan
    rw [hscan, Cursor.mirrors_ok_iff] at hmirrors
    have hend : (SchemaGraph.skipWhite (c.left s)).isEmpty = true
        ↔ ¬ (c.skipWhite s).pos < s.utf8ByteSize := by
      rw [← Cursor.left_skipWhite, List.isEmpty_iff, Cursor.left, List.drop_eq_nil_iff,
        length_textBytes, Nat.not_lt]
    rw [hmirrors]
    simp only [hend]
    split <;> rfl

/-- **The reader stands at boundaries only, cuts there, and calls itself further on.**  For every
text, the cursor comes to what the reader comes to, and never has to cut where the text cannot be
cut.  It goes byte by byte, not beyond the text and always from boundary to boundary; what it cuts
out lies between boundaries, and the name of the expression is cut out so; and each call that
it makes, one for each bracket that it goes over, begins further on than the call that makes it. -/
theorem scan_stays_on_boundaries (s : String) :
    (TypeExpr.scan s).1 = (TypeExpr.read s).mapError .refused ∧
    (TypeExpr.scan s).1 ≠ .error .panicked ∧
    (TypeExpr.scan s).2.visited = List.range ((TypeExpr.scan s).2.pos + 1) ∧
    (TypeExpr.scan s).2.visited.Pairwise (· ≤ ·) ∧
    (∀ p ∈ (TypeExpr.scan s).2.visited, p ≤ s.utf8ByteSize ∧ AtBoundary s p) ∧
    (∀ cut ∈ (TypeExpr.scan s).2.cuts, cut.1 ≤ cut.2 ∧ cut.2 ≤ s.utf8ByteSize ∧
      AtBoundary s cut.1 ∧ AtBoundary s cut.2) ∧
    (∀ e, TypeExpr.read s = .ok e →
      ∃ cut ∈ (TypeExpr.scan s).2.cuts, part? s cut.1 cut.2 = some e.root) ∧
    (∀ call ∈ (TypeExpr.scan s).2.calls, call.1 < call.2) ∧
    (TypeExpr.scan s).2.calls.length
      = ((textBytes s).take (TypeExpr.scan s).2.pos).count '[' := by
  have hsteady := steady_scan s
  have hread := scan_eq_read s
  have hvisited : (TypeExpr.scan s).2.visited = List.range ((TypeExpr.scan s).2.pos + 1) := by
    rw [Cursor.visited, hsteady.past, List.range_succ]
  refine ⟨hread, ?_, hvisited, ?_, ?_, ?_, ?_, hsteady.calls, hsteady.opened⟩
  · rw [hread]
    cases TypeExpr.read s <;> nofun
  · rw [hvisited]
    exact List.pairwise_le_range
  · intro p hp
    rw [hvisited, List.mem_range, Nat.lt_succ_iff] at hp
    have hboundary := hsteady.boundary p hp
    exact ⟨hboundary.le, hboundary⟩
  · intro cut hcut
    obtain ⟨hlt, hle⟩ := hsteady.cuts cut hcut
    have hstop := hsteady.boundary cut.2 hle
    exact ⟨Nat.le_of_lt hlt, hstop.le,
      hsteady.boundary cut.1 (Nat.le_trans (Nat.le_of_lt hlt) hle), hstop⟩
  · intro e he
    rw [he] at hread
    exact cut_of_scan hread

/-- The first byte of a longer character is not gone over. -/
example : TypeExpr.scan "[é]" = (.error (.refused .expectedName),
    { pos := 1, past := [0], calls := [(0, 1)] }) := by decide +kernel

end SchemaGraph
