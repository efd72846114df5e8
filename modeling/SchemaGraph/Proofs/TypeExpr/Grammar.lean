/-
**The grammar of type expressions.**

A text is a type expression when a grammar of three rules derives it: the text is an expression
between white space, an expression is a name or a bracketed expression with at most one exclamation
mark after it, and white space may stand at every joint.  The reader accepts just what the grammar
derives.  What it refuses it refuses at the first character that no derivable text goes on with, and
what it reports is what that place needs.

Two names never stand side by side in a rule, so a name in a derivable text always ends where no
letter, digit or underscore follows: nothing has to be said of names that are as long as possible.

Main definitions:

* `Symbol`, `Derives` — the grammar, with the expression that a text stands for;
* `Viable`, `FailsAfter` — the beginnings of derivable texts, and where a text leaves them;
* `Needs` — what a place needs, for each problem that can be reported of it;
* `TypeExpr.Ends`, `Stops` — where the reader ends an expression, and where it stops without one.

Main results:

* `exists_of_readType`, `Derives.isRead` — what is read is derivable, and the other way round;
* `exists_of_readType_error`, `Stops.readType_eq` — where the reader refuses, it has stopped, and
  the other way round;
* `readBytes_eq_ok_iff`, `needs_of_readBytes` — what the reader makes of a whole text;
* `parse_iff_derives` — **the accepted texts are the derivable ones, and the reported problem is
  what the first failing place needs**.
-/

import SchemaGraph.Proofs.TypeExpr.Written
import SchemaGraph.Nodes.NodeType

set_option autoImplicit false

namespace SchemaGraph

/-! ### The grammar -/

/-- What a part of a text can be. -/
inductive Symbol where
  /-- a whole text -/
  | sentence
  /-- an expression -/
  | type
  /-- an expression without an exclamation mark of its own -/
  | atom

/-- The white space that may stand at a joint. -/
def Blank (cs : List Char) : Prop := ∀ c ∈ cs, isWhite c = true

/-- The grammar: what a text is, and the expression it stands for. -/
inductive Derives : Symbol → List Char → TypeExpr → Prop where
  /-- a name -/
  | name {w : List Char} : isName w = true → Derives .atom w (.named (String.ofList w))
  /-- an expression in brackets -/
  | list {before w after : List Char} {e : TypeExpr} : Blank before → Derives .type w e →
      Blank after → Derives .atom ('[' :: (before ++ (w ++ (after ++ [']'])))) (.list e)
  /-- no exclamation mark -/
  | plain {w : List Char} {e : TypeExpr} : Derives .atom w e → Derives .type w e
  /-- one exclamation mark -/
  | marked {w gap : List Char} {e : TypeExpr} : Derives .atom w e → Blank gap →
      Derives .type (w ++ (gap ++ ['!'])) (.nonNull e)
  /-- white space around an expression -/
  | sentence {before w after : List Char} {e : TypeExpr} : Blank before → Derives .type w e →
      Blank after → Derives .sentence (before ++ (w ++ after)) e

/-- Some derivable text begins so. -/
def Viable (u : List Char) : Prop := ∃ v e, Derives .sentence (u ++ v) e

/-- The text begins like a derivable one up to there, and no longer after the next character. -/
def FailsAfter (cs u : List Char) : Prop :=
  u <+: cs ∧ Viable u ∧ ∀ c, u ++ [c] <+: cs → ¬ Viable (u ++ [c])

/-- What has to come after the characters read so far. -/
def Needs (u : List Char) : NotationProblem → Prop
  /- all that can go on, after white space, is an expression, which begins with a name or a
  bracket -/
  | .expectedName => ∀ v e, Derives .sentence (u ++ v) e →
      ∃ c ∈ (skipWhite v).head?, c = '[' ∨ isNameStart c = true
  /- an expression is there, and brackets are open -/
  | .missingBracket => ∃ n e, Derives .sentence (u ++ List.replicate (n + 1) ']') e
  /- all is there -/
  | .trailingInput => ∃ e, Derives .sentence u e
  /- nothing that is read is in need of that -/
  | .wrappedName => False

/-! ### White space -/

theorem blank_nil : Blank [] := fun _ hc => absurd hc List.not_mem_nil

theorem Blank.append {as bs : List Char} (ha : Blank as) (hb : Blank bs) : Blank (as ++ bs) := by
  intro c hc
  exact (List.mem_append.1 hc).elim (ha c) (hb c)

theorem skipWhite_append {before : List Char} (hb : Blank before) (cs : List Char) :
    skipWhite (before ++ cs) = skipWhite cs :=
  List.dropWhile_append_of_pos hb

theorem skipWhite_skipWhite (cs : List Char) : skipWhite (skipWhite cs) = skipWhite cs :=
  List.dropWhile_idempotent isWhite cs

theorem skipWhite_eq_nil_iff {cs : List Char} : skipWhite cs = [] ↔ Blank cs :=
  List.dropWhile_eq_nil_iff

/-- Nothing is skipped before a character that is not white. -/
theorem skipWhite_of_head {cs : List Char} (h : ∀ c ∈ cs.head?, isWhite c = false) :
    skipWhite cs = cs :=
  dropWhile_append_of_head blank_nil h

theorem skipWhite_cons {c : Char} (h : isWhite c = false) (cs : List Char) :
    skipWhite (c :: cs) = c :: cs :=
  List.dropWhile_cons_of_neg (Bool.eq_false_iff.1 h)

theorem isWhite_of_mem_head_skipWhite {cs : List Char} {c : Char} (h : c ∈ (skipWhite cs).head?) :
    isWhite c = false := by
  have := List.head?_dropWhile_not isWhite cs
  rw [← skipWhite, h] at this
  exact this

/-- A text is the white space before it and what is left after that. -/
theorem exists_blank (cs : List Char) : ∃ before, Blank before ∧ cs = before ++ skipWhite cs :=
  ⟨cs.takeWhile isWhite, fun _ hc => List.mem_takeWhile_imp hc,
    List.takeWhile_append_dropWhile.symm⟩

/-! ### What can begin a text -/

theorem isWhite_of_isNameStart {c : Char} (h : isNameStart c = true) : isWhite c = false :=
  isWhite_of_isNamePart (isNamePart_of_isNameStart h)

theorem ne_bracket_of_isNameStart {c : Char} (h : isNameStart c = true) : c ≠ '[' := by
  rintro rfl
  simp [isNameStart] at h

/-- What a symbol without white space around it begins with. -/
theorem Derives.opening {s : Symbol} {w : List Char} {e : TypeExpr} (h : Derives s w e)
    (hs : s = .type ∨ s = .atom) : ∃ c cs, w = c :: cs ∧ (c = '[' ∨ isNameStart c = true) := by
  induction h with
  | @name w hw =>
      cases w with
      | nil => exact absurd hw Bool.false_ne_true
      | cons c cs => exact ⟨c, cs, rfl, .inr (Bool.and_eq_true_iff.1 hw).1⟩
  | list => exact ⟨'[', _, rfl, .inl rfl⟩
  | plain _ ih => exact ih (.inr rfl)
  | marked _ _ ih =>
      obtain ⟨c, cs, rfl, hc⟩ := ih (.inr rfl)
      exact ⟨c, _, rfl, hc⟩
  | sentence => exact hs.elim nofun nofun

theorem Derives.skipWhite_before {w : List Char} {e : TypeExpr} (h : Derives .type w e)
    {before : List Char} (hb : Blank before) (after : List Char) :
    skipWhite (before ++ (w ++ after)) = w ++ after := by
  obtain ⟨c, cs, rfl, hc⟩ := h.opening (.inl rfl)
  rw [skipWhite_append hb]
  refine skipWhite_of_head fun d hd => ?_
  obtain rfl : c = d := Option.some.inj hd
  exact hc.elim (fun hc => hc ▸ rfl) isWhite_of_isNameStart

/-! ### The parts of the reader -/

/-- The reader of a whole text, on its bytes. -/
def readBytes (cs : List Char) : Except NotationProblem TypeExpr :=
  match readType cs with
  | .error problem => .error problem
  | .ok (e, rest) => if (skipWhite rest).isEmpty then .ok e else .error .trailingInput

theorem read_eq_readBytes (s : String) : TypeExpr.read s = readBytes (textBytes s) := rfl

theorem readName_of_isName {name after : List Char} (hn : isName name = true)
    (ha : ∀ c ∈ after.head?, isNamePart c = false) :
    readName (name ++ after) = some (String.ofList name, after) := by
  cases name with
  | nil => exact absurd hn Bool.false_ne_true
  | cons c cs =>
      rw [isName, Bool.and_eq_true, List.all_eq_true] at hn
      rw [List.cons_append, readName, if_pos hn.1, takeWhile_append_of_head hn.2 ha,
        dropWhile_append_of_head hn.2 ha]

/-- What is read as a name is one, and it ends where no name goes on. -/
theorem readName_eq_some {cs after : List Char} {name : String}
    (h : readName cs = some (name, after)) : isName name.toList = true ∧
      cs = name.toList ++ after ∧ ∀ c ∈ after.head?, isNamePart c = false := by
  cases cs with
  | nil => simp [readName] at h
  | cons c cs =>
      rw [readName, Option.ite_none_right_eq_some, Option.some.injEq, Prod.mk.injEq] at h
      obtain ⟨hstart, rfl, rfl⟩ := h
      rw [String.toList_ofList]
      refine ⟨?_, ?_, ?_⟩
      · rw [isName, hstart, Bool.true_and, List.all_eq_true]
        exact fun d hd => List.mem_takeWhile_imp hd
      · rw [List.cons_append, List.takeWhile_append_dropWhile]
      · intro d hd
        have := List.head?_dropWhile_not isNamePart cs
        rw [hd] at this
        exact this

theorem readName_eq_none_iff {cs : List Char} :
    readName cs = none ↔ ∀ c ∈ cs.head?, isNameStart c = false := by
  cases cs with
  | nil => simp [readName]
  | cons c cs => simp [readName]

theorem readType_of_bracket {cs rest : List Char} (h : skipWhite cs = '[' :: rest) :
    readType cs = match readType rest with
      | .error problem => .error problem
      | .ok (inner, rest) =>
        match skipWhite rest with
        | ']' :: rest => .ok (readMark (.list inner) rest)
        | _ => .error .missingBracket := by
  rw [readType_eq, h]
  rfl

theorem readType_of_no_bracket {cs : List Char} (h : ∀ c ∈ (skipWhite cs).head?, c ≠ '[') :
    readType cs = match readName (skipWhite cs) with
      | some (name, rest) => .ok (readMark (.named name) rest)
      | none => .error .expectedName := by
  rw [readType_eq]
  split
  · rename_i rest hskip
    exact absurd rfl (h '[' (by rw [hskip]; rfl))
  · rfl

theorem readMark_of_mark {e : TypeExpr} {cs rest : List Char} (h : skipWhite cs = '!' :: rest) :
    readMark e cs = (.nonNull e, rest) := by
  rw [readMark, h]
  rfl

theorem readMark_of_no_mark {e : TypeExpr} {cs : List Char}
    (h : ∀ c ∈ (skipWhite cs).head?, c ≠ '!') : readMark e cs = (e, skipWhite cs) := by
  rw [readMark]
  split
  · rename_i rest hskip
    exact absurd rfl (h '!' (by rw [hskip]; rfl))
  · rfl

/-! ### What is read -/

namespace TypeExpr

/-- The name that the expression is goes no further in what follows. -/
def Munched : TypeExpr → List Char → Prop
  | .named _, after => ∀ c ∈ after.head?, isNamePart c = false
  | _, _ => True

/-- The expression goes no further in what follows. -/
def Ends : TypeExpr → List Char → Prop
  | .nonNull _, _ => True
  | e, after => e.Munched after ∧ ∀ c ∈ (skipWhite after).head?, c ≠ '!'

/-- Whether an expression goes on is decided by the next character and the next one that is not
white. -/
theorem Ends.congr {e : TypeExpr} {after after' : List Char} (h : e.Ends after)
    (hhead : after'.head? = after.head?)
    (hskip : (skipWhite after').head? = (skipWhite after).head?) : e.Ends after' := by
  cases e with
  | nonNull => trivial
  | named name =>
      refine ⟨?_, ?_⟩
      · rw [Munched, hhead]
        exact h.1
      · rw [hskip]
        exact h.2
  | list e =>
      refine ⟨trivial, ?_⟩
      rw [hskip]
      exact h.2

/-- An expression ends before white space and a closing bracket, and at the end of the text. -/
theorem ends_of_closing {e : TypeExpr} {after : List Char}
    (h : ∀ c ∈ (skipWhite after).head?, c = ']') : e.Ends after := by
  have hmark : ∀ c ∈ (skipWhite after).head?, c ≠ '!' := by
    rintro c hc rfl
    exact absurd (h _ hc) (by decide)
  cases e with
  | nonNull => trivial
  | list => exact ⟨trivial, hmark⟩
  | named name =>
      refine ⟨fun c hc => ?_, hmark⟩
      by_contra hpart
      rw [Bool.not_eq_false] at hpart
      rw [skipWhite_of_head fun d hd => Option.some.inj (hc.symm.trans hd) ▸
        isWhite_of_isNamePart hpart] at h
      obtain rfl := h c hc
      exact absurd hpart (by decide)

end TypeExpr

/-- An expression without a mark is read up to its end, and a mark after it. -/
theorem exists_of_readMark {a after rest : List Char} {e f : TypeExpr} (ha : Derives .atom a e)
    (hm : e.Munched after) (h : readMark e after = (f, rest)) : ∃ w after',
      Derives .type w f ∧ a ++ after = w ++ after' ∧ f.Ends after' ∧
        skipWhite rest = skipWhite after' := by
  by_cases hmark : ∃ rest', skipWhite after = '!' :: rest'
  · obtain ⟨rest', hskip⟩ := hmark
    rw [readMark_of_mark hskip] at h
    cases h
    obtain ⟨gap, hgap, hafter⟩ := exists_blank after
    refine ⟨a ++ (gap ++ ['!']), rest, .marked ha hgap, ?_, trivial, rfl⟩
    rw [hafter, hskip]
    simp
  · have hnone : ∀ c ∈ (skipWhite after).head?, c ≠ '!' := by
      rintro c hc rfl
      exact hmark ⟨_, List.eq_cons_of_mem_head? hc⟩
    rw [readMark_of_no_mark hnone] at h
    cases h
    refine ⟨a, after, .plain ha, rfl, ?_, skipWhite_skipWhite after⟩
    cases ha with
    | name => exact ⟨hm, hnone⟩
    | list => exact ⟨trivial, hnone⟩

/-- **What is read is derivable** and goes no further in what is left. -/
theorem exists_of_readType {cs rest : List Char} {e : TypeExpr}
    (h : readType cs = .ok (e, rest)) : ∃ before w after, Blank before ∧ Derives .type w e ∧
      cs = before ++ (w ++ after) ∧ e.Ends after ∧ skipWhite rest = skipWhite after := by
  fun_induction readType cs generalizing e rest with
  | case1 => cases h
  | case3 => cases h
  | case5 => cases h
  | case2 cs inside hskip _ inner left hread after hclose ih =>
      obtain ⟨before, w, follow, hb, hw, rfl, -, hleft⟩ := ih hread
      obtain ⟨gap, hgap, hfollow⟩ := exists_blank follow
      rw [← hleft, hclose] at hfollow
      obtain ⟨w', after', hw', heq, hends, hrest⟩ :=
        exists_of_readMark (.list hb hw hgap) trivial (Except.ok.inj h)
      obtain ⟨start, hstart, hcs⟩ := exists_blank cs
      refine ⟨start, w', after', hstart, hw', ?_, hends, hrest⟩
      rw [← heq, hcs, hskip, hfollow]
      simp
  | case4 cs name after hnone hname =>
      obtain ⟨hisName, hstart, hmunch⟩ := readName_eq_some hname
      have hderives : Derives .atom name.toList (.named name) := by
        simpa [String.ofList_toList] using Derives.name hisName
      obtain ⟨w, after', hw, heq, hends, hrest⟩ :=
        exists_of_readMark hderives hmunch (Except.ok.inj h)
      obtain ⟨before, hb, hcs⟩ := exists_blank cs
      exact ⟨before, w, after', hb, hw, by rw [← heq, ← hstart, ← hcs], hends, hrest⟩

/-- What the reader does with a derivable part of a text, by what the part is. -/
def Symbol.IsRead : Symbol → List Char → TypeExpr → Prop
  | .atom, w, e => ∀ before after, Blank before → e.Munched after →
      readType (before ++ (w ++ after)) = .ok (readMark e after)
  | .type, w, e => ∀ before after, Blank before → e.Ends after →
      ∃ rest, readType (before ++ (w ++ after)) = .ok (e, rest) ∧ skipWhite rest = skipWhite after
  | .sentence, w, e => readBytes w = .ok e

/-- **All that is derivable is read**, for what it stands for. -/
theorem Derives.isRead {s : Symbol} {w : List Char} {e : TypeExpr} (h : Derives s w e) :
    s.IsRead w e := by
  induction h with
  | @name w hw =>
      intro before after hb hm
      have hskip : skipWhite (before ++ (w ++ after)) = w ++ after :=
        (Derives.plain (.name hw)).skipWhite_before hb after
      have hnone : ∀ c ∈ (skipWhite (before ++ (w ++ after))).head?, c ≠ '[' := by
        intro c hc
        rw [hskip] at hc
        cases w with
        | nil => exact absurd hw Bool.false_ne_true
        | cons d ds =>
            obtain rfl : d = c := Option.some.inj hc
            exact ne_bracket_of_isNameStart (Bool.and_eq_true_iff.1 hw).1
      rw [readType_of_no_bracket hnone, hskip, readName_of_isName hw hm]
  | @list inside w close e hi _ hc ih =>
      intro before after hb _
      have hends : e.Ends (close ++ (']' :: after)) := by
        refine TypeExpr.ends_of_closing fun c hc' => ?_
        rw [skipWhite_append hc] at hc'
        exact (Option.some.inj hc').symm
      obtain ⟨rest, hread, hrest⟩ := ih inside (close ++ (']' :: after)) hi hends
      have hskip : skipWhite (before ++ ('[' :: (inside ++ (w ++ (close ++ [']']))) ++ after))
          = '[' :: (inside ++ (w ++ (close ++ (']' :: after)))) := by
        rw [skipWhite_append hb]
        simp [skipWhite, isWhite]
      have hclose : skipWhite rest = ']' :: after := by
        rw [hrest, skipWhite_append hc]
        rfl
      rw [readType_of_bracket hskip, hread]
      simp only [hclose]
  | @plain w e hw ih =>
      intro before after hb hends
      have hparts : e.Munched after ∧ ∀ c ∈ (skipWhite after).head?, c ≠ '!' := by
        cases hw with
        | name => exact hends
        | list => exact hends
      refine ⟨skipWhite after, ?_, skipWhite_skipWhite after⟩
      rw [ih before after hb hparts.1, readMark_of_no_mark hparts.2]
  | @marked w gap e hw hg ih =>
      intro before after hb _
      have hskip : skipWhite (gap ++ '!' :: after) = '!' :: after := by
        rw [skipWhite_append hg]
        rfl
      have hmunch : e.Munched (gap ++ '!' :: after) := by
        cases hw with
        | list => trivial
        | name =>
            intro c hc
            by_contra hpart
            rw [Bool.not_eq_false] at hpart
            rw [skipWhite_of_head fun d hd => Option.some.inj (hc.symm.trans hd) ▸
              isWhite_of_isNamePart hpart] at hskip
            rw [hskip] at hc
            obtain rfl := Option.some.inj hc
            exact absurd hpart (by decide)
      refine ⟨after, ?_, rfl⟩
      have hread := ih before (gap ++ '!' :: after) hb hmunch
      rw [readMark_of_mark hskip] at hread
      rw [← hread]
      simp
  | @sentence before w after e hb _ ha ih =>
      have hskip : skipWhite after = [] := skipWhite_eq_nil_iff.2 ha
      have hends : e.Ends after := TypeExpr.ends_of_closing fun c hc => by
        rw [hskip] at hc
        exact absurd hc (by simp)
      obtain ⟨rest, hread, hrest⟩ := ih before after hb hends
      rw [Symbol.IsRead, readBytes, hread]
      simp [hrest, hskip]

/-- **The accepted texts are the derivable ones.** -/
theorem readBytes_eq_ok_iff {cs : List Char} {e : TypeExpr} :
    readBytes cs = .ok e ↔ Derives .sentence cs e := by
  refine ⟨fun h => ?_, fun h => h.isRead⟩
  unfold readBytes at h
  split at h
  · cases h
  · rename_i e' rest hread
    split at h
    · rename_i hempty
      obtain rfl := Except.ok.inj h
      obtain ⟨before, w, after, hb, hw, rfl, -, hrest⟩ := exists_of_readType hread
      rw [hrest, List.isEmpty_iff, skipWhite_eq_nil_iff] at hempty
      exact .sentence hb hw hempty
    · cases h

/-- A text stands for one expression at most. -/
theorem Derives.unique {cs : List Char} {e f : TypeExpr} (h : Derives .sentence cs e)
    (h' : Derives .sentence cs f) : e = f :=
  Except.ok.inj (h.isRead.symm.trans h'.isRead)

/-! ### Where the reader stops -/

/-- Where the reader stops without an expression: with which problem, in how many brackets, what
it has read, and what it has before it. -/
inductive Stops : NotationProblem → Nat → List Char → List Char → Prop where
  /-- no expression begins -/
  | name {before after : List Char} : Blank before →
      (∀ c ∈ (skipWhite after).head?, c ≠ '[' ∧ isNameStart c = false) →
      Stops .expectedName 0 before after
  /-- an expression in brackets has ended, and no bracket closes -/
  | bracket {start inside w gap after : List Char} {e : TypeExpr} : Blank start → Blank inside →
      Derives .type w e → Blank gap → e.Ends (gap ++ after) →
      (∀ c ∈ (skipWhite after).head?, c ≠ ']') →
      Stops .missingBracket 1 (start ++ '[' :: (inside ++ (w ++ gap))) after
  /-- in brackets -/
  | inside {problem : NotationProblem} {n : Nat} {start u after : List Char} : Blank start →
      Stops problem n u after → Stops problem (n + 1) (start ++ '[' :: u) after

/-- The reader refuses where it stops, with that problem. -/
theorem Stops.readType_eq {problem : NotationProblem} {n : Nat} {u after : List Char}
    (h : Stops problem n u after) : readType (u ++ after) = .error problem := by
  have hopen : ∀ {start : List Char} (rest : List Char), Blank start →
      skipWhite (start ++ '[' :: rest) = '[' :: rest := by
    intro start rest hs
    rw [skipWhite_append hs]
    rfl
  induction h with
  | @name before after hb hafter =>
      have hskip : skipWhite (before ++ after) = skipWhite after := skipWhite_append hb after
      rw [readType_of_no_bracket, hskip, readName_eq_none_iff.2 fun c hc => (hafter c hc).2]
      rw [hskip]
      exact fun c hc => (hafter c hc).1
  | @bracket start inside w gap after e hs hi hw hg hends hafter =>
      obtain ⟨rest, hread, hrest⟩ := hw.isRead inside (gap ++ after) hi hends
      have htext : start ++ '[' :: (inside ++ (w ++ gap)) ++ after
          = start ++ '[' :: (inside ++ (w ++ (gap ++ after))) := by simp
      rw [htext, readType_of_bracket (hopen _ hs), hread]
      rw [skipWhite_append hg] at hrest
      simp only [hrest]
      split
      · rename_i rest' hclose
        exact absurd rfl (hafter ']' (by rw [hclose]; rfl))
      · rfl
  | @inside problem n start u after hs _ ih =>
      rw [List.append_assoc, List.cons_append, readType_of_bracket (hopen _ hs), ih]

/-- Where the reader refuses, it has stopped, before a character that is not white. -/
theorem exists_of_readType_error {cs : List Char} {problem : NotationProblem}
    (h : readType cs = .error problem) : ∃ n u after, Stops problem n u after ∧ cs = u ++ after ∧
      ∀ c ∈ after.head?, isWhite c = false := by
  fun_induction readType cs with
  | case1 cs rest hskip _ problem' hread ih =>
      obtain rfl := Except.error.inj h
      obtain ⟨n, u, after, hstops, rfl, hafter⟩ := ih hread
      obtain ⟨start, hs, hcs⟩ := exists_blank cs
      refine ⟨n + 1, start ++ '[' :: u, after, .inside hs hstops, ?_, hafter⟩
      rw [hcs, hskip]
      simp
  | case2 => cases h
  | case3 cs rest hskip _ inner left hread hclose =>
      obtain rfl := Except.error.inj h
      obtain ⟨inside, w, follow, hi, hw, rfl, hends, hleft⟩ := exists_of_readType hread
      obtain ⟨gap, hg, hfollow⟩ := exists_blank follow
      obtain ⟨start, hs, hcs⟩ := exists_blank cs
      refine ⟨1, start ++ '[' :: (inside ++ (w ++ gap)), skipWhite follow,
        .bracket hs hi hw hg (hfollow ▸ hends) ?_, ?_, fun c => isWhite_of_mem_head_skipWhite⟩
      · rw [skipWhite_skipWhite, ← hleft]
        rintro c hc rfl
        exact hclose _ (List.eq_cons_of_mem_head? hc)
      · rw [hcs, hskip]
        conv_lhs => rw [hfollow]
        simp
  | case4 => cases h
  | case5 cs hnone hname =>
      obtain rfl := Except.error.inj h
      obtain ⟨before, hb, hcs⟩ := exists_blank cs
      refine ⟨0, before, skipWhite cs, .name hb ?_, hcs, fun c => isWhite_of_mem_head_skipWhite⟩
      rw [skipWhite_skipWhite]
      refine fun c hc => ⟨?_, readName_eq_none_iff.1 hname c hc⟩
      rintro rfl
      exact hnone _ (List.eq_cons_of_mem_head? hc)

/-- Where the reader stops is decided by the character before it. -/
theorem Stops.congr {problem : NotationProblem} {n : Nat} {u after after' : List Char}
    (h : Stops problem n u after) (hwhite : ∀ c ∈ after.head?, isWhite c = false)
    (hhead : after'.head? = after.head?) : Stops problem n u after' := by
  have hskip : skipWhite after = after := skipWhite_of_head hwhite
  have hskip' : skipWhite after' = after' := skipWhite_of_head (hhead ▸ hwhite)
  induction h with
  | name hb hafter => exact .name hb (by rwa [hskip', hhead, ← hskip])
  | @bracket _ _ _ gap _ _ hs hi hw hg hends hafter =>
      refine .bracket hs hi hw hg (hends.congr ?_ ?_) (by rwa [hskip', hhead, ← hskip])
      · rw [List.head?_append, List.head?_append, hhead]
      · rw [skipWhite_append hg, skipWhite_append hg, hskip, hskip', hhead]
  | inside hs _ ih => exact .inside hs (ih hwhite hhead hskip)

/-- Where a name is missing, it is missing before all that begins no expression. -/
theorem Stops.of_expectedName {n : Nat} {u after after' : List Char}
    (h : Stops .expectedName n u after)
    (hafter' : ∀ c ∈ (skipWhite after').head?, c ≠ '[' ∧ isNameStart c = false) :
    Stops .expectedName n u after' := by
  generalize hp : NotationProblem.expectedName = problem at h
  induction h with
  | name hb => exact hp ▸ .name hb hafter'
  | bracket => cases hp
  | inside hs _ ih => exact .inside hs (ih hp)

/-- What completes an expression where the reader stopped, but for the closing brackets. -/
def NotationProblem.filler : NotationProblem → List Char
  | .expectedName => ['_']
  | _ => []

theorem Derives.bracketed {start cs : List Char} {e : TypeExpr} (hs : Blank start)
    (h : Derives .sentence cs e) : Derives .sentence (start ++ '[' :: (cs ++ [']'])) (.list e) := by
  cases h with
  | @sentence before w after _ hb hw ha =>
      have htext : start ++ '[' :: (before ++ (w ++ after) ++ [']'])
          = start ++ (('[' :: (before ++ (w ++ (after ++ [']'])))) ++ []) := by simp
      rw [htext]
      exact .sentence hs (.plain (.list hb hw ha)) blank_nil

/-- Closing the brackets where the reader stopped makes a derivable text. -/
theorem Stops.completed {problem : NotationProblem} {n : Nat} {u after : List Char}
    (h : Stops problem n u after) :
    ∃ e, Derives .sentence (u ++ (problem.filler ++ List.replicate n ']')) e := by
  induction h with
  | @name before after hb _ =>
      have hplain : Derives .type ['_'] (.named "_") := .plain (.name rfl)
      exact ⟨_, .sentence hb hplain blank_nil⟩
  | @bracket start inside w gap after e hs hi hw hg _ _ =>
      refine ⟨.list e, ?_⟩
      have := Derives.bracketed hs (.sentence hi hw hg)
      simpa [NotationProblem.filler] using this
  | @inside problem n start u after hs _ ih =>
      obtain ⟨e, he⟩ := ih
      refine ⟨.list e, ?_⟩
      have := he.bracketed hs
      simpa [List.replicate_succ'] using this

theorem Stops.pos {n : Nat} {u after : List Char} (h : Stops .missingBracket n u after) :
    0 < n := by
  cases h with
  | bracket => exact Nat.one_pos
  | inside => exact Nat.succ_pos _

/-- The problem that the reader stops with is one of two. -/
theorem Stops.problem_eq {problem : NotationProblem} {n : Nat} {u after : List Char}
    (h : Stops problem n u after) :
    problem = .expectedName ∨ problem = .missingBracket := by
  induction h with
  | name => exact .inl rfl
  | bracket => exact .inr rfl
  | inside _ _ ih => exact ih

/-- The place where the reader stopped needs what is reported. -/
theorem Stops.needs {problem : NotationProblem} {n : Nat} {u after : List Char}
    (h : Stops problem n u after) : Needs u problem := by
  obtain rfl | rfl := h.problem_eq
  · intro v e he
    by_contra hnone
    have hstops : Stops .expectedName n u v := by
      refine h.of_expectedName fun c hc => ⟨fun hb => hnone ⟨c, hc, .inl hb⟩, ?_⟩
      exact Bool.eq_false_iff.2 fun hs => hnone ⟨c, hc, .inr hs⟩
    have hread := he.isRead
    rw [Symbol.IsRead, readBytes, hstops.readType_eq] at hread
    cases hread
  · obtain ⟨n, rfl⟩ := Nat.exists_eq_add_one.2 h.pos
    obtain ⟨e, he⟩ := h.completed
    exact ⟨n, e, he⟩

/-- A text leaves the derivable ones where it is refused whatever follows the next character. -/
theorem failsAfter_of_refused {u after : List Char} (hu : Viable u)
    (h : ∀ c ∈ after.head?, ∀ v e, readBytes (u ++ c :: v) ≠ .ok e) :
    FailsAfter (u ++ after) u := by
  refine ⟨List.prefix_append u after, hu, ?_⟩
  rintro c hpre ⟨v, e, he⟩
  rw [List.prefix_append_right_inj] at hpre
  obtain ⟨rest, rfl⟩ := hpre
  rw [List.append_assoc, List.singleton_append] at he
  exact h c rfl v e he.isRead

/-- What follows a complete expression is refused as such. -/
theorem readBytes_of_trailing {before w gap v : List Char} {c : Char} {e : TypeExpr}
    (hb : Blank before) (hw : Derives .type w e) (hg : Blank gap)
    (hends : e.Ends (gap ++ c :: v)) (hc : isWhite c = false) :
    readBytes (before ++ (w ++ gap) ++ c :: v) = .error .trailingInput := by
  obtain ⟨rest, hread, hrest⟩ := hw.isRead before (gap ++ c :: v) hb hends
  rw [skipWhite_append hg, skipWhite_cons hc] at hrest
  rw [List.append_assoc, List.append_assoc, readBytes, hread]
  simp [hrest]

/-- **A refused text leaves the derivable ones at a place that needs what is reported.** -/
theorem needs_of_readBytes {cs : List Char} {problem : NotationProblem}
    (h : readBytes cs = .error problem) : ∃ u, FailsAfter cs u ∧ Needs u problem := by
  unfold readBytes at h
  split at h
  · rename_i problem' hread
    obtain rfl := Except.error.inj h
    obtain ⟨n, u, after, hstops, rfl, hwhite⟩ := exists_of_readType_error hread
    obtain ⟨e, he⟩ := hstops.completed
    refine ⟨u, failsAfter_of_refused ⟨_, e, he⟩ fun c hc v f hf => ?_, hstops.needs⟩
    have hstops' : Stops problem' n u (c :: v) := hstops.congr hwhite hc.symm
    rw [readBytes, hstops'.readType_eq] at hf
    cases hf
  · rename_i e rest hread
    split at h
    · cases h
    · obtain rfl := Except.error.inj h
      obtain ⟨before, w, follow, hb, hw, rfl, hends, -⟩ := exists_of_readType hread
      obtain ⟨gap, hg, hfollow⟩ := exists_blank follow
      have he : Derives .sentence (before ++ (w ++ gap)) e := .sentence hb hw hg
      have hviable : Viable (before ++ (w ++ gap)) := ⟨[], e, by rwa [List.append_nil]⟩
      refine ⟨before ++ (w ++ gap), ?_, e, he⟩
      rw [hfollow, ← List.append_assoc w, ← List.append_assoc before]
      refine failsAfter_of_refused hviable fun c hc v f hf => ?_
      have hwhite : isWhite c = false := isWhite_of_mem_head_skipWhite hc
      have hends' : e.Ends (gap ++ c :: v) := by
        refine hends.congr ?_ ?_
        · conv_rhs => rw [hfollow]
          rw [List.head?_append, List.head?_append, hc]
          rfl
        · rw [skipWhite_append hg, skipWhite_cons hwhite, hc]
          rfl
      rw [readBytes_of_trailing hb hw hg hends' hwhite] at hf
      cases hf

/-! ### One place and one problem -/

theorem Viable.of_append {u v : List Char} (h : Viable (u ++ v)) : Viable u := by
  obtain ⟨x, e, he⟩ := h
  exact ⟨v ++ x, e, by rwa [← List.append_assoc]⟩

/-- A text leaves the derivable ones at one place. -/
theorem FailsAfter.unique {cs u v : List Char} (hu : FailsAfter cs u) (hv : FailsAfter cs v) :
    u = v := by
  have hle : ∀ {u v : List Char}, FailsAfter cs u → FailsAfter cs v → u <+: v → u = v := by
    rintro u v hu hv ⟨rest, rfl⟩
    cases rest with
    | nil => rw [List.append_nil]
    | cons c rest =>
        have htext : u ++ c :: rest = u ++ [c] ++ rest := by simp
        have hviable : Viable (u ++ [c] ++ rest) := htext ▸ hv.2.1
        have hpre : u ++ [c] <+: cs := .trans ⟨rest, rfl⟩ (htext ▸ hv.1)
        exact absurd hviable.of_append (hu.2.2 c hpre)
  obtain h | h := List.prefix_or_prefix_of_prefix hu.1 hv.1
  · exact hle hu hv h
  · exact (hle hv hu h).symm

theorem count_of_all {p : Char → Bool} {c : Char} (hc : p c = false) {cs : List Char}
    (h : ∀ d ∈ cs, p d = true) : cs.count c = 0 :=
  List.count_eq_zero.2 fun hmem => by rw [h c hmem] at hc; exact Bool.noConfusion hc

/-- As many brackets are closed as are opened. -/
theorem Derives.balanced {s : Symbol} {w : List Char} {e : TypeExpr} (h : Derives s w e) :
    w.count '[' = w.count ']' := by
  have hblank : ∀ {cs : List Char}, Blank cs → cs.count '[' = 0 ∧ cs.count ']' = 0 :=
    fun hb => ⟨count_of_all (p := isWhite) rfl hb, count_of_all (p := isWhite) rfl hb⟩
  induction h with
  | name hw =>
      have hpart := isNamePart_of_isName hw
      rw [count_of_all (p := isNamePart) (by decide) hpart,
        count_of_all (p := isNamePart) (by decide) hpart]
  | list hb _ ha ih => simp [hblank hb, hblank ha, ih]
  | plain _ ih => exact ih
  | marked _ hg ih => simp [hblank hg, ih]
  | sentence hb _ ha ih => simp [hblank hb, hblank ha, ih]

/-- A place is in need of one thing. -/
theorem Needs.unique {u : List Char} {p q : NotationProblem} (hp : Needs u p) (hq : Needs u q) :
    p = q := by
  have hname : Needs u .expectedName → ¬ Needs u .trailingInput := by
    rintro h ⟨e, he⟩
    obtain ⟨c, hc, -⟩ := h [] e (by rwa [List.append_nil])
    cases hc
  have hbracket : Needs u .expectedName → ¬ Needs u .missingBracket := by
    rintro h ⟨n, e, he⟩
    obtain ⟨c, hc, hstart⟩ := h _ e he
    obtain rfl : ']' = c := Option.some.inj hc
    exact absurd hstart (by decide)
  have hclosed : Needs u .trailingInput → ¬ Needs u .missingBracket := by
    rintro ⟨e, he⟩ ⟨n, f, hf⟩
    have hcount := hf.balanced
    have := he.balanced
    simp only [List.count_append, List.count_replicate] at hcount
    simp at hcount
    omega
  cases p <;> cases q <;> first
    | rfl
    | exact hp.elim
    | exact hq.elim
    | exact absurd hq (hname hp)
    | exact absurd hp (hname hq)
    | exact absurd hq (hbracket hp)
    | exact absurd hp (hbracket hq)
    | exact absurd hq (hclosed hp)
    | exact absurd hp (hclosed hq)

/-! ### Texts of characters -/

/-- What begins a derivable text consists of single bytes. -/
theorem Derives.ascii {s : Symbol} {w : List Char} {e : TypeExpr} (h : Derives s w e) :
    ∀ c ∈ w, isAscii c = true := by
  have hblank : ∀ {cs : List Char}, Blank cs → ∀ c ∈ cs, isAscii c = true :=
    fun hb c hc => isAscii_of_isWhite (hb c hc)
  induction h with
  | name hw => exact fun c hc => isAscii_of_isNamePart (isNamePart_of_isName hw c hc)
  | list hb _ ha ih =>
      simp only [List.forall_mem_cons, List.forall_mem_append]
      exact ⟨rfl, hblank hb, ih, hblank ha, rfl, nofun⟩
  | plain _ ih => exact ih
  | marked _ hg ih =>
      simp only [List.forall_mem_cons, List.forall_mem_append]
      exact ⟨ih, hblank hg, rfl, nofun⟩
  | sentence hb _ ha ih =>
      simp only [List.forall_mem_append]
      exact ⟨hblank hb, ih, hblank ha⟩

theorem Viable.ascii {u : List Char} (h : Viable u) : ∀ c ∈ u, isAscii c = true := by
  obtain ⟨v, e, he⟩ := h
  exact fun c hc => he.ascii c (List.mem_append_left v hc)

/-- A beginning of single bytes goes up to the first character that is none. -/
theorem prefix_append_cons_iff {u before rest : List Char} {c : Char}
    (hu : ∀ d ∈ u, isAscii d = true) (hc : isAscii c = false) :
    u <+: before ++ c :: rest ↔ u <+: before := by
  constructor
  · intro h
    have hsplit : before ++ [c] <+: before ++ c :: rest := ⟨rest, by simp⟩
    have hnot : ∀ {v : List Char}, before ++ [c] <+: v → ∃ d ∈ v, isAscii d = false :=
      fun hv => ⟨c, hv.subset (by simp), hc⟩
    obtain hle | hle := List.prefix_or_prefix_of_prefix h hsplit
    · obtain rfl | hle := List.prefix_concat_iff.1 hle
      · exact absurd (hu c (by simp)) (Bool.eq_false_iff.1 hc)
      · exact hle
    · obtain ⟨d, hd, hnone⟩ := hnot hle
      exact absurd (hu d hd) (Bool.eq_false_iff.1 hnone)
  · exact fun h => h.trans (List.prefix_append before _)

/-- The bytes of a text begin like its characters, as far as both are single bytes. -/
theorem prefix_textBytes_iff {s : String} {u : List Char} (hu : ∀ d ∈ u, isAscii d = true) :
    u <+: textBytes s ↔ u <+: s.toList := by
  by_cases hs : ∀ c ∈ s.toList, isAscii c = true
  · rw [textBytes_of_ascii hs]
  · -- the text up to its first character that is no single byte
    obtain ⟨before, c, rest, htext, hbefore, hc⟩ : ∃ before c rest,
        s.toList = before ++ c :: rest ∧ (∀ d ∈ before, isAscii d = true) ∧
          isAscii c = false := by
      obtain ⟨c, rest, hdrop⟩ : ∃ c rest, s.toList.dropWhile isAscii = c :: rest :=
        List.exists_cons_of_ne_nil fun hnil => hs (List.dropWhile_eq_nil_iff.1 hnil)
      refine ⟨s.toList.takeWhile isAscii, c, rest, ?_, fun _ hd => List.mem_takeWhile_imp hd, ?_⟩
      · rw [← hdrop, List.takeWhile_append_dropWhile]
      · have := List.head?_dropWhile_not isAscii s.toList
        rwa [hdrop] at this
    obtain ⟨d, ds, hencode, hd⟩ := encode_of_not_ascii hc
    have hbytes : textBytes s = before ++ d :: (ds ++ textBytes (String.ofList rest)) := by
      have hfirst : textBytes (String.ofList before) = before := by
        rw [textBytes_of_ascii (by rwa [String.toList_ofList]), String.toList_ofList]
      rw [← String.ofList_toList (s := s), htext, textBytes_ofList, List.flatMap_append,
        List.flatMap_cons, ← textBytes_ofList, ← textBytes_ofList, hfirst, hencode,
        List.cons_append]
    rw [hbytes, htext, prefix_append_cons_iff hu hd, prefix_append_cons_iff hu hc]

/-- The bytes of a text are derivable just when its characters are. -/
theorem derives_textBytes_iff {s : String} {e : TypeExpr} :
    Derives .sentence (textBytes s) e ↔ Derives .sentence s.toList e := by
  constructor
  · intro h
    rwa [textBytes_of_ascii (ascii_of_textBytes h.ascii)] at h
  · intro h
    rwa [textBytes_of_ascii h.ascii]

theorem failsAfter_textBytes_iff {s : String} {u : List Char} :
    FailsAfter (textBytes s) u ↔ FailsAfter s.toList u := by
  have hpre : ∀ {v : List Char}, Viable v → (v <+: textBytes s ↔ v <+: s.toList) :=
    fun hv => prefix_textBytes_iff hv.ascii
  constructor
  · rintro ⟨hu, hviable, hlast⟩
    exact ⟨(hpre hviable).1 hu, hviable, fun c hc hv => hlast c ((hpre hv).2 hc) hv⟩
  · rintro ⟨hu, hviable, hlast⟩
    exact ⟨(hpre hviable).2 hu, hviable, fun c hc hv => hlast c ((hpre hv).1 hc) hv⟩

theorem read_eq_ok_iff {s : String} {e : TypeExpr} :
    TypeExpr.read s = .ok e ↔ Derives .sentence s.toList e := by
  rw [read_eq_readBytes, readBytes_eq_ok_iff, derives_textBytes_iff]

theorem needs_of_read {s : String} {problem : NotationProblem}
    (h : TypeExpr.read s = .error problem) : ∃ u, FailsAfter s.toList u ∧ Needs u problem := by
  rw [read_eq_readBytes] at h
  obtain ⟨u, hu, hneeds⟩ := needs_of_readBytes h
  exact ⟨u, failsAfter_textBytes_iff.1 hu, hneeds⟩

/-- **The accepted texts are the derivable ones**, each for the one expression that it stands for
and that excludes null once at most at every depth.  Any other text is reported as it is, with the
problem that is named by what the first failing place needs. -/
theorem parse_iff_derives (s : String) :
    (∀ e, TypeExpr.parse s = .ok e ↔ Derives .sentence s.toList e) ∧
    (∀ e f, Derives .sentence s.toList e → Derives .sentence s.toList f → e = f) ∧
    (∀ e, TypeExpr.parse s = .ok e → e.Single) ∧
    (∀ err, TypeExpr.parse s = .error err ↔ (∀ e, ¬ Derives .sentence s.toList e) ∧
      ∃ u problem, FailsAfter s.toList u ∧ Needs u problem ∧ err = .invalidType s problem) ∧
    NotationProblem.expectedName.message = "expected a type name" ∧
    NotationProblem.missingBracket.message = "missing `]`" ∧
    NotationProblem.trailingInput.message = "unexpected trailing input" := by
  have hok : ∀ e, TypeExpr.parse s = .ok e ↔ Derives .sentence s.toList e :=
    fun e => TypeExpr.parse_eq_ok_iff.trans read_eq_ok_iff
  refine ⟨hok, fun e f he hf => he.unique hf,
    fun e he => single_of_read (TypeExpr.parse_eq_ok_iff.1 he), fun err => ⟨fun h => ?_, ?_⟩,
    rfl, rfl, rfl⟩
  · refine ⟨fun e he => ?_, ?_⟩
    · rw [(hok e).2 he] at h
      cases h
    · obtain ⟨problem, hread, rfl⟩ := TypeExpr.parse_eq_error_iff.1 h
      obtain ⟨u, hu, hneeds⟩ := needs_of_read hread
      exact ⟨u, problem, hu, hneeds, rfl⟩
  · rintro ⟨hnone, u, problem, hu, hneeds, rfl⟩
    cases hread : TypeExpr.read s with
    | ok e => exact absurd (read_eq_ok_iff.1 hread) (hnone e)
    | error reported =>
        obtain ⟨v, hv, hneeds'⟩ := needs_of_read hread
        obtain rfl := hv.unique hu
        obtain rfl := hneeds'.unique hneeds
        exact TypeExpr.parse_eq_error_iff.2 ⟨reported, hread, rfl⟩

example : TypeExpr.parse "[Page" = .error (.invalidType "[Page" .missingBracket) := by cbv

example : TypeExpr.parse "Page!!" = .error (.invalidType "Page!!" .trailingInput) := by cbv

end SchemaGraph
