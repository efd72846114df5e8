/-
**What arguments say.**

The arguments of a command are read in pieces: a root in one argument or in two, the option to
report identities, a path.  A piece is known by its first argument, and only a root in two arguments
takes the next one with it, whatever that is.  So there is one way to read a list of arguments in
pieces as far as it goes, and what stops the reader is the first argument that begins no piece, or
that is a second path.

Main definitions:

* `Piece`, `spelled` — what is written for a piece, and for several;
* `paths`, `roots` — what is said in pieces;
* `Stuck` — arguments that begin with no piece;
* `Offends`, `FirstOffence` — an argument that is refused, and the first one that is.

Main results:

* `arguments_append_inj`, `exists_pieces`, `pieces_unique` — arguments are pieces in one way;
* `readArguments_piece`, `readArguments_spelled` — what the reader does with one piece, and with
  several;
* `addAll_rotate` — a path, or the option to report identities, can stand anywhere;
* `offends_piece_iff` — a piece is refused only as a second path;
* `parse_eq_ok_iff`, `parse_eq_error_iff` — what is understood, and what is not;
* `parse_by_pieces` — **which arguments are understood, what they say, and why others are refused**.
-/

import Mathlib.Data.List.Induction
import SchemaGraph.Command.Invocation

set_option autoImplicit false

namespace SchemaGraph.Command

/-! ### Options and paths -/

/-- The argument starts with a dash. -/
def Dashed (argument : String) : Prop := ∃ rest, argument = "-" ++ rest

theorem dashed_iff {argument : String} : Dashed argument ↔ argument.toList.head? = some '-' := by
  constructor
  · rintro ⟨rest, rfl⟩
    simp
  · intro h
    obtain ⟨cs, hcs⟩ := List.head?_eq_some_iff.1 h
    refine ⟨String.ofList cs, ?_⟩
    rw [← String.toList_inj, hcs]
    simp

instance (argument : String) : Decidable (Dashed argument) := decidable_of_iff _ dashed_iff.symm

theorem dashed_rootOption : Dashed rootOption := ⟨"-root", rfl⟩

theorem dashed_dumpOption : Dashed dumpOption := ⟨"-dump-identities", rfl⟩

theorem dashed_rootEquals (name : String) : Dashed (rootEquals ++ name) :=
  ⟨"-root=" ++ name, by rw [← String.append_assoc]; rfl⟩

theorem afterStart?_eq_some_iff {start s name : String} :
    afterStart? start s = some name ↔ s = start ++ name := by
  have hsplit : s = start ++ name ↔ s.toList = start.toList ++ name.toList := by
    rw [← String.toList_append, String.toList_inj]
  rw [afterStart?, Option.ite_none_right_eq_some, List.isPrefixOf_iff_prefix, Option.some.injEq,
    hsplit]
  constructor
  · rintro ⟨⟨cs, hcs⟩, rfl⟩
    rw [← hcs, String.toList_ofList, List.drop_left]
  · intro h
    rw [h, List.drop_left, String.ofList_toList]
    exact ⟨List.prefix_append _ _, rfl⟩

/-- The root option in two arguments is not the one in one argument. -/
theorem rootOption_ne_rootEquals (name : String) : rootOption ≠ rootEquals ++ name := by
  intro h
  have hlength := congrArg String.length h
  rw [String.length_append] at hlength
  have : rootOption.length < rootEquals.length := by decide
  omega

/-- An option that is none of those that are known. -/
structure UnknownOption (argument : String) : Prop where
  dashed : Dashed argument
  ne_rootOption : argument ≠ rootOption
  ne_rootEquals : ∀ name, argument ≠ rootEquals ++ name
  ne_dumpOption : argument ≠ dumpOption

/-! ### Pieces -/

/-- A piece of the arguments. -/
inductive Piece where
  /-- a root in two arguments -/
  | root (name : String)
  /-- a root in one argument -/
  | rootEquals (name : String)
  | dumpIdentities
  /-- an argument that is no option -/
  | path (path : String) (plain : ¬ Dashed path)
deriving DecidableEq

namespace Piece

/-- What is written for a piece. -/
def arguments : Piece → List String
  | root name => [rootOption, name]
  | rootEquals name => [Command.rootEquals ++ name]
  | dumpIdentities => [dumpOption]
  | path p _ => [p]

/-- What a piece says. -/
def part : Piece → Part
  | root name | rootEquals name => .root name
  | dumpIdentities => .dumpIdentities
  | path p _ => .path p

/-- The root that a piece names. -/
def root? : Piece → Option String
  | root name | rootEquals name => some name
  | _ => none

/-- The path that a piece is. -/
def path? : Piece → Option String
  | path p _ => some p
  | _ => none

end Piece

/-- What is written for several pieces. -/
def spelled (ps : List Piece) : List String := ps.flatMap Piece.arguments

/-- The paths among the pieces. -/
def paths (ps : List Piece) : List String := ps.filterMap Piece.path?

/-- The roots that pieces name. -/
def roots (ps : List Piece) : List String := ps.filterMap Piece.root?

theorem spelled_cons (p : Piece) (ps : List Piece) (rest : List String) :
    spelled (p :: ps) ++ rest = p.arguments ++ (spelled ps ++ rest) := by
  rw [spelled, List.flatMap_cons, List.append_assoc, spelled]

theorem spelled_append (ps qs : List Piece) (rest : List String) :
    spelled (ps ++ qs) ++ rest = spelled ps ++ (spelled qs ++ rest) := by
  rw [spelled, List.flatMap_append, List.append_assoc, spelled, spelled]

theorem paths_append (ps qs : List Piece) : paths (ps ++ qs) = paths ps ++ paths qs :=
  List.filterMap_append

/-! ### The reader, piece by piece -/

theorem readPart_rootEquals (name : String) : readPart (rootEquals ++ name) = .ok (.root name) := by
  have hname : afterStart? rootEquals (rootEquals ++ name) = some name :=
    afterStart?_eq_some_iff.2 rfl
  simp only [readPart, hname]

theorem readPart_of_ne {argument : String} (h : ∀ name, argument ≠ rootEquals ++ name)
    (hdump : argument ≠ dumpOption) :
    readPart argument
      = if Dashed argument then .error (.unknownOption argument) else .ok (.path argument) := by
  have hnone : afterStart? rootEquals argument = none := by
    rw [Option.eq_none_iff_forall_ne_some]
    exact fun name hname => h name (afterStart?_eq_some_iff.1 hname)
  simp only [readPart, hnone, if_neg hdump, dashed_iff]

theorem readPart_path {argument : String} (h : ¬ Dashed argument) :
    readPart argument = .ok (.path argument) := by
  rw [readPart_of_ne, if_neg h]
  · rintro name rfl
    exact h (dashed_rootEquals name)
  · rintro rfl
    exact h dashed_dumpOption

theorem UnknownOption.readPart_eq {argument : String} (h : UnknownOption argument) :
    readPart argument = .error (.unknownOption argument) := by
  rw [readPart_of_ne h.ne_rootEquals h.ne_dumpOption, if_pos h.dashed]

/-- A piece is a root in two arguments, or a single argument that says what the piece says. -/
theorem Piece.root_or_single (p : Piece) : (∃ name, p = .root name) ∨
    ∃ argument, p.arguments = [argument] ∧ argument ≠ rootOption ∧
      readPart argument = .ok p.part := by
  cases p with
  | root name => exact Or.inl ⟨name, rfl⟩
  | rootEquals name =>
      exact Or.inr ⟨_, rfl, (rootOption_ne_rootEquals name).symm, readPart_rootEquals name⟩
  | dumpIdentities => exact Or.inr ⟨_, rfl, by decide, rfl⟩
  | path p plain =>
      refine Or.inr ⟨_, rfl, ?_, readPart_path plain⟩
      rintro rfl
      exact plain dashed_rootOption

/-- A piece is known by what is written for it, whatever follows. -/
theorem arguments_append_inj {p q : Piece} {as bs : List String}
    (h : p.arguments ++ as = q.arguments ++ bs) : p = q ∧ as = bs := by
  rcases p.root_or_single with ⟨m, rfl⟩ | ⟨a, ha, hne, hread⟩ <;>
    rcases q.root_or_single with ⟨n, rfl⟩ | ⟨b, hb, hne', hread'⟩
  · simp only [Piece.arguments, List.cons_append, List.nil_append, List.cons.injEq] at h
    exact ⟨congrArg Piece.root h.2.1, h.2.2⟩
  · rw [hb] at h
    exact absurd (List.cons.inj h).1.symm hne'
  · rw [ha] at h
    exact absurd (List.cons.inj h).1 hne
  · -- one argument says one thing, and says it as one piece
    rw [ha, hb, List.singleton_append, List.singleton_append, List.cons.injEq] at h
    obtain ⟨rfl, h⟩ := h
    have hpart : p.part = q.part := Except.ok.inj (hread.symm.trans hread')
    refine ⟨?_, h⟩
    cases p <;> cases q <;> simp_all [Piece.part, Piece.arguments]

/-- Arguments that begin with no piece. -/
def Stuck (rest : List String) : Prop := ∀ (p : Piece) (after : List String),
  rest ≠ p.arguments ++ after

theorem exists_pieces (arguments : List String) :
    ∃ ps rest, arguments = spelled ps ++ rest ∧ Stuck rest := by
  induction hn : arguments.length using Nat.strongRecOn generalizing arguments with
  | ind n ih =>
      by_cases hstuck : Stuck arguments
      · exact ⟨[], arguments, rfl, hstuck⟩
      · simp only [Stuck, not_forall, not_not] at hstuck
        obtain ⟨p, after, rfl⟩ := hstuck
        have hlt : after.length < n := by
          rw [← hn, List.length_append]
          cases p <;> simp [Piece.arguments]
        obtain ⟨ps, rest, rfl, hrest⟩ := ih _ hlt after rfl
        exact ⟨p :: ps, rest, (spelled_cons p ps rest).symm, hrest⟩

theorem pieces_unique {ps qs : List Piece} {as bs : List String} (ha : Stuck as) (hb : Stuck bs)
    (h : spelled ps ++ as = spelled qs ++ bs) : ps = qs ∧ as = bs := by
  induction ps generalizing qs with
  | nil =>
      cases qs with
      | nil => exact ⟨rfl, h⟩
      | cons q qs => exact absurd (h.trans (spelled_cons q qs bs)) (ha q _)
  | cons p ps ih =>
      cases qs with
      | nil => exact absurd (h.symm.trans (spelled_cons p ps as)) (hb p _)
      | cons q qs =>
          rw [spelled_cons, spelled_cons] at h
          obtain ⟨rfl, hrest⟩ := arguments_append_inj h
          obtain ⟨rfl, hab⟩ := ih hrest
          exact ⟨rfl, hab⟩

/-- What stops the reading in pieces is the end, an option without its root, or an unknown
option. -/
theorem Stuck.cases {rest : List String} (h : Stuck rest) :
    rest = [] ∨ rest = [rootOption] ∨ ∃ argument after, rest = argument :: after ∧
      UnknownOption argument := by
  cases rest with
  | nil => exact Or.inl rfl
  | cons argument after =>
      by_cases hroot : argument = rootOption
      · subst hroot
        cases after with
        | nil => exact Or.inr (Or.inl rfl)
        | cons name after => exact absurd rfl (h (.root name) after)
      · refine Or.inr (Or.inr ⟨argument, after, rfl, ?_, hroot, ?_, ?_⟩)
        · by_contra plain
          exact h (.path argument plain) after rfl
        · rintro name rfl
          exact h (.rootEquals name) after rfl
        · rintro rfl
          exact h .dumpIdentities after rfl

/-! ### What pieces say -/

/-- The choices with what further pieces say. -/
def Choices.addAll (c : Choices) : List Piece → Except UsageError Choices
  | [] => .ok c
  | p :: ps => (c.add p.part).bind fun c => c.addAll ps

/-- The reader takes one piece at a time. -/
theorem readArguments_piece (c : Choices) (p : Piece) (rest : List String) :
    readArguments c (p.arguments ++ rest)
      = (c.add p.part).bind fun c => readArguments c rest := by
  rcases p.root_or_single with ⟨name, rfl⟩ | ⟨argument, harguments, hne, hread⟩
  · exact readArguments_root c name rest
  · rw [harguments, List.singleton_append, readArguments_part hne, hread]
    rfl

theorem readArguments_spelled (c : Choices) (ps : List Piece) (rest : List String) :
    readArguments c (spelled ps ++ rest)
      = (c.addAll ps).bind fun c => readArguments c rest := by
  induction ps generalizing c with
  | nil => rfl
  | cons p ps ih =>
      rw [spelled_cons, readArguments_piece, Choices.addAll]
      cases c.add p.part with
      | error e => rfl
      | ok c' => exact ih c'

theorem Choices.addAll_append (c : Choices) (ps qs : List Piece) :
    c.addAll (ps ++ qs) = (c.addAll ps).bind fun c => c.addAll qs := by
  induction ps generalizing c with
  | nil => rfl
  | cons p ps ih =>
      rw [List.cons_append, addAll, addAll]
      cases c.add p.part with
      | error e => rfl
      | ok c' => exact ih c'

/-- What pieces with one path at most say. -/
def said (ps : List Piece) : Choices where
  path := (paths ps).head?
  root := (roots ps).getLast?
  dumpIdentities := decide (Piece.dumpIdentities ∈ ps)

theorem said_concat {ps : List Piece} {p : Piece} (h : (paths (ps ++ [p])).length ≤ 1) :
    (said ps).add p.part = .ok (said (ps ++ [p])) := by
  cases p with
  | root name => simp [said, Choices.add, Piece.part, paths, roots, Piece.path?, Piece.root?]
  | rootEquals name => simp [said, Choices.add, Piece.part, paths, roots, Piece.path?, Piece.root?]
  | dumpIdentities => simp [said, Choices.add, Piece.part, paths, roots, Piece.path?, Piece.root?]
  | path p plain =>
      have hnone : paths ps = [] := by
        rw [paths_append, List.length_append] at h
        exact List.length_eq_zero_iff.1 (Nat.le_zero.1 (Nat.le_of_succ_le_succ h))
      simp [said, Choices.add, Piece.part, paths_append, hnone, roots, Piece.root?]
      simp [paths, Piece.path?]

theorem addAll_eq_said {ps : List Piece} (h : (paths ps).length ≤ 1) :
    Choices.addAll {} ps = .ok (said ps) := by
  induction ps using List.reverseRecOn with
  | nil => rfl
  | append_singleton ps p ih =>
      have hlast := said_concat h
      rw [paths_append, List.length_append] at h
      rw [Choices.addAll_append, ih (Nat.le_trans (Nat.le_add_right _ _) h)]
      simp only [Except.bind, Choices.addAll, hlast]

/-! ### Pieces that can stand anywhere -/

/-- The piece is the option to report identities, or a path that is moved past no other. -/
def Movable (p : Piece) (between : List Piece) : Prop :=
  p = .dumpIdentities ∨ p.path?.isSome = true ∧ paths between = []

theorem Movable.of_cons {p q : Piece} {ps : List Piece} (h : Movable p (q :: ps)) :
    Movable p ps ∧ (p = .dumpIdentities ∨ p.path?.isSome = true ∧ q.path? = none) := by
  rcases h with hp | ⟨hp, hpaths⟩
  · exact ⟨Or.inl hp, Or.inl hp⟩
  · cases q <;> simp_all [Movable, paths, Piece.path?]

theorem add_swap {p q : Piece} (h : p = .dumpIdentities ∨ p.path?.isSome = true ∧ q.path? = none)
    (c : Choices) :
    ((c.add p.part).bind fun c => c.add q.part) = (c.add q.part).bind fun c => c.add p.part := by
  rcases h with rfl | ⟨hp, hq⟩
  · cases q with
    | path q plain => cases hc : c.path <;> simp [Choices.add, Piece.part, Except.bind, hc]
    | _ => rfl
  · cases p with
    | path p plain =>
        cases q with
        | path q plain => simp [Piece.path?] at hq
        | _ => cases hc : c.path <;> simp [Choices.add, Piece.part, Except.bind, hc]
    | _ => simp [Piece.path?] at hp

/-- A movable piece says the same at the end. -/
theorem addAll_rotate {p : Piece} {ps : List Piece} (h : Movable p ps) (c : Choices) :
    c.addAll (p :: ps) = c.addAll (ps ++ [p]) := by
  induction ps generalizing c with
  | nil => rfl
  | cons q ps ih =>
      obtain ⟨hps, hq⟩ := h.of_cons
      have hassoc : ∀ (x y : Piece), c.addAll (x :: y :: ps)
          = ((c.add x.part).bind fun c => c.add y.part).bind fun c => c.addAll ps := by
        intro x y
        rw [Choices.addAll]
        cases c.add x.part <;> rfl
      calc c.addAll (p :: q :: ps)
          = ((c.add p.part).bind fun c => c.add q.part).bind fun c => c.addAll ps := hassoc p q
        _ = ((c.add q.part).bind fun c => c.add p.part).bind fun c => c.addAll ps := by
            rw [add_swap hq]
        _ = c.addAll (q :: p :: ps) := (hassoc q p).symm
        _ = (c.add q.part).bind fun c => c.addAll (ps ++ [p]) := by
            rw [Choices.addAll]
            congr 1
            funext c'
            exact ih hps c'

/-- The reader does not see where a movable piece stands. -/
theorem parse_rotate {p : Piece} {between : List Piece} (h : Movable p between)
    (before : List Piece) (rest : List String) :
    Invocation.parse (spelled (before ++ between ++ [p]) ++ rest)
      = Invocation.parse (spelled (before ++ p :: between) ++ rest) := by
  simp only [Invocation.parse, readArguments_spelled, List.append_assoc, Choices.addAll_append]
  congr 2
  cases Choices.addAll {} before with
  | error e => rfl
  | ok c =>
      have hc := (addAll_rotate h c).symm
      rwa [Choices.addAll_append] at hc

/-! ### Arguments that are refused -/

/-- The first of these arguments is refused, after certain pieces. -/
inductive Offends (before : List Piece) : List String → UsageError → Prop where
  /-- the option for the root is the last argument -/
  | missingRoot : Offends before [rootOption] .missingRoot
  | unknownOption {argument : String} {rest : List String} :
      UnknownOption argument → Offends before (argument :: rest) (.unknownOption argument)
  /-- a path after another one -/
  | extraPath {argument : String} {rest : List String} : ¬ Dashed argument → paths before ≠ [] →
      Offends before (argument :: rest) (.extraPath argument)

/-- An argument is refused, and none before it is. -/
def FirstOffence (arguments : List String) (e : UsageError) : Prop :=
  ∃ before rest, arguments = spelled before ++ rest ∧ Offends before rest e ∧
    ∀ front p back, before = front ++ p :: back →
      ∀ e', ¬ Offends front (spelled (p :: back) ++ rest) e'

/-- A piece is refused only as a second path. -/
theorem offends_piece_iff {before : List Piece} {p : Piece} {rest : List String} :
    (∃ e, Offends before (p.arguments ++ rest) e)
      ↔ p.path?.isSome = true ∧ paths before ≠ [] := by
  constructor
  · rintro ⟨e, h⟩
    generalize hargs : p.arguments ++ rest = args at h
    cases h with
    | missingRoot =>
        rcases p.root_or_single with ⟨name, rfl⟩ | ⟨argument, harguments, hne, -⟩
        · simp [Piece.arguments] at hargs
        · rw [harguments] at hargs
          exact absurd (List.cons.inj hargs).1 hne
    | unknownOption hunknown =>
        rcases p.root_or_single with ⟨name, rfl⟩ | ⟨argument, harguments, -, hread⟩
        · exact absurd (List.cons.inj hargs).1.symm hunknown.ne_rootOption
        · rw [harguments] at hargs
          rw [(List.cons.inj hargs).1, hunknown.readPart_eq] at hread
          exact absurd hread (by simp)
    | extraPath plain hpaths =>
        refine ⟨?_, hpaths⟩
        cases p with
        | root name => exact absurd ((List.cons.inj hargs).1 ▸ dashed_rootOption) plain
        | rootEquals name => exact absurd ((List.cons.inj hargs).1 ▸ dashed_rootEquals name) plain
        | dumpIdentities => exact absurd ((List.cons.inj hargs).1 ▸ dashed_dumpOption) plain
        | path p _ => rfl
  · rintro ⟨hp, hpaths⟩
    cases p with
    | path p plain => exact ⟨_, .extraPath plain hpaths⟩
    | _ => simp [Piece.path?] at hp

/-- Of several paths the second one is refused. -/
theorem exists_second_path {ps : List Piece} (h : 1 < (paths ps).length) (rest : List String) :
    ∃ front p back, ps = front ++ p :: back ∧ (paths front).length ≤ 1 ∧
      ∃ e, Offends front (spelled (p :: back) ++ rest) e := by
  induction ps using List.reverseRecOn generalizing rest with
  | nil => simp [paths] at h
  | append_singleton ps p ih =>
      by_cases hps : 1 < (paths ps).length
      · obtain ⟨front, q, back, rfl, hfront, he⟩ := ih hps (spelled [p] ++ rest)
        rw [← spelled_append] at he
        exact ⟨front, q, back ++ [p], by simp, hfront, he⟩
      · -- so the last piece is a path, and there is one before it
        refine ⟨ps, p, [], rfl, Nat.le_of_not_lt hps, ?_⟩
        rw [spelled_cons]
        refine offends_piece_iff.2 ⟨?_, fun hnil => ?_⟩
        · rw [paths_append, List.length_append] at h
          cases p with
          | path p plain => rfl
          | _ => exact absurd h hps
        · rw [paths_append, hnil, List.nil_append] at h
          exact absurd (List.length_filterMap_le Piece.path? [p]) (Nat.not_le_of_lt h)

/-- Nothing among pieces is refused exactly when there is one path at most. -/
theorem unoffended_iff {before : List Piece} {rest : List String} :
    (∀ front p back, before = front ++ p :: back →
        ∀ e, ¬ Offends front (spelled (p :: back) ++ rest) e) ↔ (paths before).length ≤ 1 := by
  constructor
  · intro h
    by_contra hlength
    obtain ⟨front, p, back, hbefore, -, e, he⟩ :=
      exists_second_path (Nat.lt_of_not_le hlength) rest
    exact h front p back hbefore e he
  · rintro hlength front p back rfl e he
    rw [spelled_cons] at he
    obtain ⟨hp, hpaths⟩ := offends_piece_iff.1 ⟨e, he⟩
    obtain ⟨path, hpath⟩ := Option.isSome_iff_exists.1 hp
    have hfront := List.length_pos_iff.2 hpaths
    simp only [paths, List.filterMap_append, List.filterMap_cons, hpath, List.length_append,
      List.length_cons] at hlength hfront
    omega

/-! ### What becomes of arguments -/

/-- Pieces with one path at most are read, whatever comes after them. -/
theorem readArguments_of_few {ps : List Piece} (h : (paths ps).length ≤ 1) (rest : List String) :
    readArguments {} (spelled ps ++ rest) = readArguments (said ps) rest := by
  rw [readArguments_spelled, addAll_eq_said h]
  rfl

theorem parse_of_whole {ps : List Piece} {path : String} (h : paths ps = [path]) :
    Invocation.parse (spelled ps)
      = .ok ⟨path, (roots ps).getLast?, decide (Piece.dumpIdentities ∈ ps)⟩ := by
  have hfew : (paths ps).length ≤ 1 := by simp [h]
  rw [← List.append_nil (spelled ps), Invocation.parse, readArguments_of_few hfew]
  simp [Except.bind, readArguments, said, h]

theorem parse_of_pathless {ps : List Piece} (h : paths ps = []) :
    Invocation.parse (spelled ps) = .error .missingPath := by
  have hfew : (paths ps).length ≤ 1 := by simp [h]
  rw [← List.append_nil (spelled ps), Invocation.parse, readArguments_of_few hfew]
  simp [Except.bind, readArguments, said, h]

theorem readArguments_of_offends {before : List Piece} {rest : List String} {e : UsageError}
    (h : Offends before rest e) : readArguments (said before) rest = .error e := by
  cases h with
  | missingRoot => rfl
  | unknownOption hunknown =>
      rw [readArguments_part hunknown.ne_rootOption, hunknown.readPart_eq]
      rfl
  | @extraPath argument rest plain hpaths =>
      have hne : argument ≠ rootOption := by
        rintro rfl
        exact plain dashed_rootOption
      obtain ⟨path, ps, hcons⟩ := List.exists_cons_of_ne_nil hpaths
      rw [readArguments_part hne, readPart_path plain]
      simp [Except.bind, Choices.add, said, hcons]

theorem parse_of_firstOffence {arguments : List String} {e : UsageError}
    (h : FirstOffence arguments e) : Invocation.parse arguments = .error e := by
  obtain ⟨before, rest, rfl, hoffends, hfirst⟩ := h
  have hread := readArguments_of_few (unoffended_iff.1 hfirst) rest
  rw [Invocation.parse, hread, readArguments_of_offends hoffends]
  rfl

/-- Arguments are all pieces, with one path or none, or one of them is the first to be refused. -/
theorem exists_outcome (arguments : List String) :
    (∃ ps path, arguments = spelled ps ∧ paths ps = [path]) ∨
    (∃ ps, arguments = spelled ps ∧ paths ps = []) ∨ ∃ e, FirstOffence arguments e := by
  obtain ⟨ps, rest, rfl, hstuck⟩ := exists_pieces arguments
  by_cases hlength : (paths ps).length ≤ 1
  · rcases hstuck.cases with rfl | rfl | ⟨argument, after, rfl, hunknown⟩
    · rw [List.append_nil]
      cases hpaths : paths ps with
      | nil => exact Or.inr (Or.inl ⟨ps, rfl, hpaths⟩)
      | cons path others =>
          rw [hpaths, List.length_cons] at hlength
          obtain rfl : others = [] := List.length_eq_zero_iff.1 (by omega)
          exact Or.inl ⟨ps, path, rfl, hpaths⟩
    · exact Or.inr (Or.inr ⟨_, ps, _, rfl, .missingRoot, unoffended_iff.2 hlength⟩)
    · exact Or.inr (Or.inr ⟨_, ps, _, rfl, .unknownOption hunknown, unoffended_iff.2 hlength⟩)
  · -- the second path is refused before anything that comes after it
    obtain ⟨front, p, back, rfl, hfront, e, he⟩ :=
      exists_second_path (Nat.lt_of_not_le hlength) rest
    exact Or.inr (Or.inr ⟨e, front, _, spelled_append _ _ _, he, unoffended_iff.2 hfront⟩)

/-- What is understood is pieces with one path. -/
theorem parse_eq_ok_iff {arguments : List String} {inv : Invocation} :
    Invocation.parse arguments = .ok inv ↔
      ∃ ps, arguments = spelled ps ∧ paths ps = [inv.nodes] ∧ inv.root = (roots ps).getLast? ∧
        (inv.dumpIdentities = true ↔ Piece.dumpIdentities ∈ ps) := by
  constructor
  · intro h
    rcases exists_outcome arguments with ⟨ps, path, rfl, hpath⟩ | ⟨ps, rfl, hnone⟩ | ⟨e, he⟩
    · rw [parse_of_whole hpath, Except.ok.injEq] at h
      subst h
      exact ⟨ps, rfl, hpath, rfl, decide_eq_true_iff⟩
    · rw [parse_of_pathless hnone] at h
      exact absurd h (by simp)
    · rw [parse_of_firstOffence he] at h
      exact absurd h (by simp)
  · rintro ⟨ps, rfl, hpath, hroot, hdump⟩
    have hdecide : decide (Piece.dumpIdentities ∈ ps) = inv.dumpIdentities := by
      rw [Bool.eq_iff_iff, decide_eq_true_iff, hdump]
    rw [parse_of_whole hpath, ← hroot, hdecide]

/-- What is not understood has a first argument that is refused, or no path. -/
theorem parse_eq_error_iff {arguments : List String} {e : UsageError} :
    Invocation.parse arguments = .error e ↔ FirstOffence arguments e ∨
      (∃ ps, arguments = spelled ps ∧ paths ps = []) ∧ e = .missingPath := by
  constructor
  · intro h
    rcases exists_outcome arguments with ⟨ps, path, rfl, hpath⟩ | ⟨ps, rfl, hnone⟩ | ⟨e', he⟩
    · rw [parse_of_whole hpath] at h
      exact absurd h (by simp)
    · rw [parse_of_pathless hnone, Except.error.injEq] at h
      exact Or.inr ⟨⟨ps, rfl, hnone⟩, h.symm⟩
    · rw [parse_of_firstOffence he, Except.error.injEq] at h
      exact Or.inl (h ▸ he)
  · rintro (h | ⟨⟨ps, rfl, hnone⟩, rfl⟩)
    · exact parse_of_firstOffence h
    · exact parse_of_pathless hnone

/-! ### The language of arguments -/

/-- **Which arguments are understood, what they say, and why others are refused.**  Any arguments
are pieces in one way, as far as they are pieces.  They are understood exactly when they are pieces
to the end with one path among them; that path is where the definitions are, the root is the last
one that is named, and identities are reported when any piece says so.  Else the error is that of
the first argument that is refused, or, when none is, that there is no path.  The path and the
option to report identities can be moved past any pieces that hold no other path. -/
theorem parse_by_pieces (arguments : List String) :
    (∃! split : List Piece × List String,
      arguments = spelled split.1 ++ split.2 ∧ Stuck split.2) ∧
    (∀ inv, Invocation.parse arguments = .ok inv ↔
      ∃ ps, arguments = spelled ps ∧ paths ps = [inv.nodes] ∧ inv.root = (roots ps).getLast? ∧
        (inv.dumpIdentities = true ↔ Piece.dumpIdentities ∈ ps)) ∧
    (∀ e, Invocation.parse arguments = .error e ↔ FirstOffence arguments e ∨
      (∃ ps, arguments = spelled ps ∧ paths ps = []) ∧ e = .missingPath) ∧
    ∀ before p between rest, Movable p between →
      arguments = spelled (before ++ p :: between) ++ rest →
      Invocation.parse (spelled (before ++ between ++ [p]) ++ rest)
        = Invocation.parse arguments := by
  refine ⟨?_, fun _ => parse_eq_ok_iff, fun _ => parse_eq_error_iff, ?_⟩
  · obtain ⟨ps, rest, hsplit, hstuck⟩ := exists_pieces arguments
    refine ⟨(ps, rest), ⟨hsplit, hstuck⟩, fun split hother => ?_⟩
    obtain ⟨hps, hrest⟩ := pieces_unique hother.2 hstuck (hother.1.symm.trans hsplit)
    exact Prod.ext hps hrest
  · rintro before p between rest hmovable rfl
    exact parse_rotate hmovable before rest

/-- Arguments with two roots, the first of which looks like an option. -/
theorem mixed_arguments_read :
    Invocation.parse ["--root", "--verbose", "nodes.json", "--root=Book", "--dump-identities"]
        = .ok ⟨"nodes.json", some "Book", true⟩ ∧
      Invocation.parse ["--root", "--verbose", "--root=Book", "--dump-identities", "nodes.json"]
        = .ok ⟨"nodes.json", some "Book", true⟩ := by
  have hplain : ¬ Dashed "nodes.json" := by decide
  obtain ⟨-, hok, -, hmove⟩ := parse_by_pieces
    ["--root", "--verbose", "nodes.json", "--root=Book", "--dump-identities"]
  have hread := (hok ⟨"nodes.json", some "Book", true⟩).2
    ⟨[.root "--verbose", .path "nodes.json" hplain, .rootEquals "Book", .dumpIdentities],
      rfl, rfl, rfl, by simp⟩
  refine ⟨hread, Eq.trans ?_ hread⟩
  exact hmove [.root "--verbose"] (.path "nodes.json" hplain) [.rootEquals "Book", .dumpIdentities]
    [] (Or.inr ⟨rfl, rfl⟩) rfl

end SchemaGraph.Command
