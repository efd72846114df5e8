/-
**How a key is looked up.**

What a look-up finds decides how the call goes on.  An entry is taken or waited for, whatever the
family would say.  When the key is absent, the registry may have no factory for it, or the family
may not admit it, and the call is refused; else its construction begins.  All that is left of a
look-up that begins no construction is the waiting record of its thread, and that the family was
asked.

Main definitions:

* `Untouched` — the store, the notes and the other threads are as they were, but for the waiting
  record of the thread that moves and for how often the family was asked;
* `Setup.refusal?` — why a key that is absent is not constructed.

Main results:

* `look_of_entry` — a look-up that finds an entry does not ask the family;
* `step_of_entry`, `step_of_refusal`, `step_of_admitted` — **the three ways in which a look-up
  ends**.
-/

import SchemaGraph.Proofs.Registry.Calls

set_option autoImplicit false

namespace SchemaGraph.Registry

variable {ι σ ε ν : Type} {R : Setup ι σ ε ν} {s s' : State ι σ ε ν} {t : ThreadId}
  {frames : List (Frame ι σ ε ν)} {stage : Stage ι σ ε ν} {c : Call ι σ ε ν} {r : Request}

/-! ### What is left as it is -/

/-- The store is as it was, but for the waiting record of a thread and for how often the family was
asked. -/
structure Store.Untouched (t : ThreadId) (S S' : Store ι) : Prop where
  entries : S'.table.entries = S.table.entries
  retired : S'.table.retired = S.table.retired
  waiting : ∀ u, u ≠ t → Dictionary.find? u S'.table.waiting = Dictionary.find? u S.table.waiting
  slots : S'.slots = S.slots
  instances : S'.instances = S.instances
  stats : S'.stats = S.stats

namespace Store.Untouched

variable {S S' S'' : Store ι}

theorem refl (t : ThreadId) (S : Store ι) : S.Untouched t S :=
  ⟨rfl, rfl, fun _ _ => rfl, rfl, rfl, rfl⟩

theorem trans (h : S.Untouched t S') (h' : S'.Untouched t S'') : S.Untouched t S'' :=
  ⟨h'.entries.trans h.entries, h'.retired.trans h.retired,
    fun u hu => (h'.waiting u hu).trans (h.waiting u hu), h'.slots.trans h.slots,
    h'.instances.trans h.instances, h'.stats.trans h.stats⟩

theorem sleep (t : ThreadId) (k : Key) (S : Store ι) : S.Untouched t (S.sleep t k) :=
  ⟨rfl, rfl, fun _ hu => Dictionary.find?_set_of_ne hu.symm _ _, rfl, rfl, rfl⟩

theorem wake (t : ThreadId) (S : Store ι) : S.Untouched t (S.wake t) :=
  ⟨rfl, rfl, fun _ hu => Dictionary.find?_erase_of_ne hu.symm _, rfl, rfl, rfl⟩

theorem ask (t : ThreadId) (S : Store ι) : S.Untouched t S.ask :=
  ⟨rfl, rfl, fun _ _ => rfl, rfl, rfl, rfl⟩

end Store.Untouched

/-- A thread moves, and all else is as it was, but for its own waiting record and for how often the
family was asked; at most the identity of its call is reported, and this is no record of an
answer. -/
structure Untouched (t : ThreadId) (s s' : State ι σ ε ν) : Prop where
  store : s.store.Untouched t s'.store
  /-- every handle leads to the same instance, and waits as before -/
  handles : ∀ h : Handle, h.get? s'.store = h.get? s.store ∧
    h.isWaiting s'.store = h.isWaiting s.store
  notes : s'.notes = s.notes
  openGates : s'.openGates = s.openGates
  beside : ∀ u, u ≠ t → s'.thread u = s.thread u
  log : ∃ new, s'.log = new ++ s.log ∧ ∀ p ∈ new, ∃ key text, p = (t, .identity key text)

theorem Store.Untouched.handles {S S' : Store ι} (hS : S.Untouched t S') (h : Handle) :
    h.get? S' = h.get? S ∧ h.isWaiting S' = h.isWaiting S := by
  simp only [Handle.get?, Handle.isWaiting, hS.slots, and_self]

theorem Untouched.refl (t : ThreadId) (s : State ι σ ε ν) : Untouched t s s :=
  ⟨.refl t _, fun _ => ⟨rfl, rfl⟩, rfl, rfl, fun _ _ => rfl,
    ⟨[], rfl, fun _ h => absurd h List.not_mem_nil⟩⟩

/-- A thread goes on, after nothing but its own waiting record has changed. -/
theorem Untouched.put {S : Store ι} (hS : s.store.Untouched t S)
    (frames : List (Frame ι σ ε ν)) (stage : Stage ι σ ε ν) :
    Untouched t s ((s.withStore S).put t frames stage) :=
  ⟨hS, hS.handles, rfl, rfl, fun _ hu => State.thread_put_of_ne hu.symm _ _ _,
    ⟨[], rfl, fun _ h => absurd h List.not_mem_nil⟩⟩

/-! ### Looking up a key -/

/-- The errors with which a call is rejected. -/
def RegistryError.isRejection : RegistryError ε → Bool
  | .invalidIdentifier .. | .invalidReference .. => true
  | _ => false

/-- Why a key that is absent is not constructed: there is no factory, or the family, after so many
questions before, does not admit it. -/
def Setup.refusal? (R : Setup ι σ ε ν) (asked : Nat) (r : Request) : Option (RegistryError ε) :=
  match Dictionary.find? r.identifier.name R.factories with
  | none => some (.invalidReference r.identifier.display .notRegistered)
  | some factory =>
    if R.admits asked r.identifier.name factory.tag then none
    else some (.invalidReference r.identifier.name (.outsideFamily factory.tag))

theorem Setup.isRejection_of_refusal {asked : Nat} {e : RegistryError ε}
    (h : R.refusal? asked r = some e) : e.isRejection = true := by
  cases hf : Dictionary.find? r.identifier.name R.factories with
  | none =>
      simp only [Setup.refusal?, hf, Option.some.injEq] at h
      exact h ▸ rfl
  | some factory =>
      simp only [Setup.refusal?, hf, Option.ite_none_left_eq_some, Option.some.injEq] at h
      exact h.2 ▸ rfl

theorem begin_of_refusal (t : ThreadId) (frames : List (Frame ι σ ε ν)) {e : RegistryError ε}
    (h : R.refusal? s.store.asked c.request = some e) :
    ∃ S, s.store.Untouched t S ∧
      begin R t frames c s = (s.withStore S).put t frames (c.deliver (.error e)) := by
  cases hf : Dictionary.find? c.request.identifier.name R.factories with
  | none =>
      simp only [Setup.refusal?, hf, Option.some.injEq] at h
      subst h
      simp only [begin, hf]
      exact ⟨s.store, .refl t _, rfl⟩
  | some factory =>
      simp only [Setup.refusal?, hf, Option.ite_none_left_eq_some, Option.some.injEq] at h
      obtain ⟨hadmits, rfl⟩ := h
      simp only [begin, hf, hadmits, if_false, Bool.false_eq_true]
      exact ⟨s.store.ask, .ask t _, rfl⟩

theorem begin_of_admitted (t : ThreadId) (frames : List (Frame ι σ ε ν))
    (h : R.refusal? s.store.asked c.request = none) :
    ∃ factory slot S, Dictionary.find? c.request.identifier.name R.factories = some factory ∧
      R.admits s.store.asked c.request.identifier.name factory.tag = true ∧
      S.asked = s.store.asked + 1 ∧
      begin R t frames c s = (s.withStore S).put t (⟨c, slot⟩ :: frames)
        (.running (factory.build ⟨c.request.identifier, c.request.context, c.key⟩)) := by
  cases hf : Dictionary.find? c.request.identifier.name R.factories with
  | none => simp [Setup.refusal?, hf] at h
  | some factory =>
      have hadmits : R.admits s.store.asked c.request.identifier.name factory.tag = true := by
        simpa [Setup.refusal?, hf] using h
      simp only [begin, hf, hadmits, if_true]
      refine ⟨factory, _, (s.store.ask.claim t c.key).2, rfl, hadmits, ?_, rfl⟩
      simp only [Store.claim, Store.takeSlot]
      split <;> rfl

/-- **A look-up that finds an entry does not ask the family**, and does not end the call: it is
about to be answered, or goes to sleep. -/
theorem look_of_entry (R : Setup ι σ ε ν) (t : ThreadId) (frames : List (Frame ι σ ε ν)) {e : Entry}
    (he : Dictionary.find? c.key s.store.table.entries = some e)
    (w : Bool) : ∃ S stage, S.asked = s.store.asked ∧
      ((∃ o h, stage = .reporting c o h) ∨ stage = .asleep c false ∧ s.store.Untouched t S) ∧
      ∀ admits, look { R with admits := admits } t frames c w s
        = (s.withStore S).put t frames stage := by
  unfold look
  cases e with
  | ready i =>
      simp only [he]
      exact ⟨s.store, _, rfl, Or.inl ⟨_, _, rfl⟩, fun _ => rfl⟩
  | pending owner slot =>
      simp only [he]
      by_cases hd : defers R t owner s.store.table = true
      · have hd' : ∀ admits, defers { R with admits := admits } t owner s.store.table = true :=
          fun _ => hd
        simp only [hd', if_true]
        exact ⟨s.store.share slot, _, rfl, Or.inl ⟨_, _, rfl⟩, fun _ => rfl⟩
      · have hd' : ∀ admits, ¬ defers { R with admits := admits } t owner s.store.table = true :=
          fun _ => hd
        simp only [hd']
        exact ⟨s.store.sleep t c.key, _, rfl, Or.inr ⟨rfl, .sleep t _ _⟩, fun _ => rfl⟩

theorem look_of_none (he : Dictionary.find? c.key s.store.table.entries = none) (w : Bool) :
    look R t frames c w s = begin R t frames c s := by
  simp only [look, he]

/-- A thread that is about to look up a key does so in its next step, after it has taken back its
waiting record. -/
theorem stepThread_of_looks (h : stage.looks = some c) (t : ThreadId) (s : State ι σ ε ν) :
    ∃ w S, s.store.Untouched t S ∧ S.asked = s.store.asked ∧
      ∀ (R : Setup ι σ ε ν) frames, stepThread R t ⟨frames, stage⟩ s
        = some (look R t frames c w (s.withStore S)) := by
  cases stage with
  | looking c' w =>
      obtain rfl := Option.some.inj h
      exact ⟨w, s.store, .refl t _, rfl, fun _ _ => rfl⟩
  | asleep c' notified =>
      cases notified with
      | false => cases h
      | true =>
          obtain rfl := Option.some.inj h
          exact ⟨true, s.store.wake t, .wake t _, rfl, fun _ _ => rfl⟩
  | _ => cases h

/-! ### How a look-up ends -/

theorem State.eq_thread (s : State ι σ ε ν) (t : ThreadId) :
    s.thread t = ⟨(s.thread t).frames, (s.thread t).stage⟩ := rfl

/-- A look-up that finds an entry, whatever the family would say. -/
theorem step_of_entry {e : Entry} (R : Setup ι σ ε ν) (hlooks : (s.thread t).stage.looks = some c)
    (he : Dictionary.find? c.key s.store.table.entries = some e) : ∃ s' stage,
      (∀ admits, step { R with admits := admits } t s = some s') ∧
      s'.thread t = ⟨(s.thread t).frames, stage⟩ ∧
      ((∃ o h, stage = .reporting c o h) ∨ stage = .asleep c false) ∧
      s'.store.asked = s.store.asked := by
  obtain ⟨w, S, hS, hasked, hstep⟩ := stepThread_of_looks hlooks t s
  have he' : Dictionary.find? c.key (s.withStore S).store.table.entries = some e := by
    rwa [State.store_withStore, hS.entries]
  obtain ⟨S', stage, hasked', hstage, hlook⟩ :=
    look_of_entry R t (s.thread t).frames he' w
  refine ⟨((s.withStore S).withStore S').put t (s.thread t).frames stage, stage, fun admits => ?_,
    State.thread_put_self _ _ _ _, hstage.imp_right And.left, hasked'.trans hasked⟩
  rw [step_eq_stepThread, State.eq_thread s t, hstep { R with admits := admits }, hlook admits]

/-- A look-up that finds the key absent, when the construction is refused. -/
theorem step_of_refusal {e : RegistryError ε} (hlooks : (s.thread t).stage.looks = some c)
    (he : Dictionary.find? c.key s.store.table.entries = none)
    (hrefusal : R.refusal? s.store.asked c.request = some e) : ∃ s', step R t s = some s' ∧
      Untouched t s s' ∧ s'.thread t = ⟨(s.thread t).frames, c.deliver (.error e)⟩ := by
  obtain ⟨w, S, hS, hasked, hstep⟩ := stepThread_of_looks hlooks t s
  have he' : Dictionary.find? c.key (s.withStore S).store.table.entries = none := by
    rwa [State.store_withStore, hS.entries]
  rw [← hasked] at hrefusal
  obtain ⟨S', hS', hbegin⟩ := begin_of_refusal t (s.thread t).frames
    (s := s.withStore S) hrefusal
  refine ⟨_, ?_, .put (hS.trans hS') _ _, State.thread_put_self _ _ _ _⟩
  rw [step_eq_stepThread, State.eq_thread s t, hstep R, look_of_none he' w, hbegin]
  rfl

/-- A look-up that finds the key absent, when the construction is admitted. -/
theorem step_of_admitted (hlooks : (s.thread t).stage.looks = some c)
    (he : Dictionary.find? c.key s.store.table.entries = none)
    (hrefusal : R.refusal? s.store.asked c.request = none) : ∃ s' factory slot,
      step R t s = some s' ∧
      Dictionary.find? c.request.identifier.name R.factories = some factory ∧
      R.admits s.store.asked c.request.identifier.name factory.tag = true ∧
      s'.store.asked = s.store.asked + 1 ∧
      s'.thread t = ⟨⟨c, slot⟩ :: (s.thread t).frames,
        .running (factory.build ⟨c.request.identifier, c.request.context, c.key⟩)⟩ := by
  obtain ⟨w, S, hS, hasked, hstep⟩ := stepThread_of_looks hlooks t s
  have he' : Dictionary.find? c.key (s.withStore S).store.table.entries = none := by
    rwa [State.store_withStore, hS.entries]
  rw [← hasked] at hrefusal
  obtain ⟨factory, slot, S', hf, hadmits, hasked', hbegin⟩ := begin_of_admitted t
    (s.thread t).frames (s := s.withStore S) hrefusal
  refine ⟨((s.withStore S).withStore S').put t (⟨c, slot⟩ :: (s.thread t).frames) _, factory, slot,
    ?_, hf, ?_, hasked'.trans (congrArg (· + 1) hasked), State.thread_put_self _ _ _ _⟩
  · rw [step_eq_stepThread, State.eq_thread s t, hstep R, look_of_none he' w, hbegin]
  · rwa [← hasked]

end SchemaGraph.Registry
