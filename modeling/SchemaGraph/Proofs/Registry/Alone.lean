/-
**A thread alone, and a registry at rest.**

While no other thread is in a call, a type that is under construction is under construction by the
thread itself, so nothing that the thread asks for keeps it waiting.  When the thread has replied to
its call, no call is in progress at all: no key is under construction, and what has an entry is
ready.

Main definitions:

* `Own` — no other thread is in a call;
* `Proceeds` — a thread goes on, and handles are cloned and dropped on the way;
* `AtRest` — a registry in which no call is in progress.

Main results:

* `Own.awake` — a thread alone is not asleep, or it was notified;
* `Coherent.ready_of_unharmed` — at rest, the handle of a construction that did not fail is ready;
* `AtRest.call`, `AtRest.resolve` — no call is in progress after one that came to its end.
-/

import SchemaGraph.Proofs.Registry.Origin

set_option autoImplicit false

namespace SchemaGraph.Registry

variable {ι σ ε ν : Type} {R : Setup ι σ ε ν} {s s' : State ι σ ε ν} {t : ThreadId} {k : Key}
  {r : Request}

/-! ### A thread alone -/

@[simp] theorem Thread.isOutside_notify (th : Thread ι σ ε ν) :
    th.notify.stage.isOutside = th.stage.isOutside := by
  obtain ⟨frames, stage⟩ := th
  cases stage <;> rfl

/-- A state of a run in which no other thread is in a call. -/
structure Own (R : Setup ι σ ε ν) (t : ThreadId) (s : State ι σ ε ν) : Prop where
  reachable : Reachable R s
  alone : ∀ u, u ≠ t → (s.thread u).stage.isOutside = true

theorem Own.step (ho : Own R t s) (h : step R t s = some s') : Own R t s' := by
  refine ⟨ho.reachable.next (.step t h), fun u hu => ?_⟩
  rcases (motion_step h).beside u hu with hb | hb <;> simp [hb, ho.alone u hu]

/-- When a thread alone is idle, no thread is in a call. -/
theorem Own.outside (ho : Own R t s) (hidle : s.isIdle t = true) (u : ThreadId) :
    (s.thread u).stage.isOutside = true := by
  by_cases hu : u = t
  · rw [hu]
    exact Stage.isOutside_of_resting (State.isResting_of_isIdle hidle)
  · exact ho.alone u hu

/-- A construction in progress is the thread's own. -/
theorem Own.owner_eq (ho : Own R t s) {u : ThreadId} {q : SlotId}
    (he : Dictionary.find? k s.store.table.entries = some (.pending u q)) : u = t := by
  by_contra hu
  obtain ⟨f, hf, -⟩ := (ho.reachable.legal.owned.pending_iff k u q).1 he
  rw [(ho.reachable.legal.linked u).frames_of_outside (ho.alone u hu)] at hf
  exact List.not_mem_nil hf

/-- A thread alone is not asleep, or it was notified: nobody else constructs what it waits for. -/
theorem Own.awake (ho : Own R t s) : (s.thread t).stage.hopesFor = none := by
  rw [Option.eq_none_iff_forall_ne_some]
  intro k hk
  have hs := ho.reachable.legal
  obtain ⟨u, q, hp⟩ | ⟨u, hu⟩ := hs.watched t k hk
  · have hw : s.store.table.WaitsFor t u := by
      refine ⟨k, q, ?_, hp⟩
      rw [hs.waiting_eq, Stage.sleepsOn_of_hopesFor hk]
    exact hs.acyclic.ne hw (ho.owner_eq hp)
  · by_cases hut : u = t
    · subst hut
      cases hst : (s.thread u).stage <;> simp [hst, Stage.isSettling, Stage.hopesFor] at hu hk
    · have hout := ho.alone u hut
      cases hst : (s.thread u).stage <;> simp [hst, Stage.isSettling, Stage.isOutside] at hu hout

/-- A thread goes on by its own steps, and handles are cloned and dropped on the way. -/
inductive Proceeds (R : Setup ι σ ε ν) (t : ThreadId) (s : State ι σ ε ν) :
    State ι σ ε ν → Prop where
  | refl : Proceeds R t s s
  | step {s' s'' : State ι σ ε ν} : Proceeds R t s s' → Registry.step R t s' = some s'' →
      Proceeds R t s s''
  | clone {s' : State ι σ ε ν} (q : SlotId) : Proceeds R t s s' → 0 < s'.store.handles q →
      Proceeds R t s (s'.withStore (s'.store.share q))
  | drop {s' : State ι σ ε ν} (q : SlotId) : Proceeds R t s s' → 0 < s'.store.handles q →
      Proceeds R t s (s'.withStore (s'.store.release q))

theorem Proceeds.runThread {s₀ : State ι σ ε ν} (h : Proceeds R t s₀ s) (n : Nat) :
    Proceeds R t s₀ (runThread R t n s) := by
  induction n generalizing s with
  | zero => exact h
  | succ n ih =>
      rw [runThread_succ]
      cases hstep : Registry.step R t s with
      | none => exact h
      | some s' => exact ih (h.step hstep)

theorem Proceeds.session (h : Proceeds R t s s') {rs : List Request} {ks : List Key}
    (hs : Session R rs ks s) : ∃ ks', Session R rs ks' s' := by
  induction h with
  | refl => exact ⟨ks, hs⟩
  | step _ hstep ih => exact ⟨_, ih.choose_spec.event (.step t hstep)⟩
  | clone q _ hq ih => exact ⟨_, ih.choose_spec.event (.clone q hq)⟩
  | drop q _ hq ih => exact ⟨_, ih.choose_spec.event (.drop q hq)⟩

theorem Own.proceeds (ho : Own R t s) (h : Proceeds R t s s') : Own R t s' := by
  induction h with
  | refl => exact ho
  | step _ hstep ih => exact ih.step hstep
  | clone q _ hq ih => exact ⟨ih.reachable.next (.clone q hq), ih.alone⟩
  | drop q _ hq ih => exact ⟨ih.reachable.next (.drop q hq), ih.alone⟩

theorem Own.runThread (ho : Own R t s) (n : Nat) : Own R t (Registry.runThread R t n s) :=
  ho.proceeds (Proceeds.refl.runThread n)

/-- A thread makes a call while no other is in one. -/
theorem Own.call (hs : Reachable R s) (hout : ∀ t, (s.thread t).stage.isOutside = true)
    (hidle : s.isIdle t = true) (r : Request) : Own R t (s.call R t r) := by
  refine ⟨hs.next (.call t r hidle), fun u hu => ?_⟩
  rcases (motion_call (R := R) r hidle).beside u hu with hb | hb <;> simp [hb, hout u]

/-! ### When no call is in progress -/

/-- When no call is in progress, no construction is. -/
theorem Legal.not_pending (hs : Legal s) (hout : ∀ t, (s.thread t).stage.isOutside = true)
    (q : SlotId) : Dictionary.find? k s.store.table.entries ≠ some (.pending t q) := by
  intro he
  have hmem := (Table.mem_inProgress hs.listed.entries ⟨k, t, q⟩).2 he
  rw [(hs.quiescent hout).1] at hmem
  exact List.not_mem_nil hmem

/-- When no call is in progress, what has an entry is ready. -/
theorem Legal.ready_of_entry (hs : Legal s) (hout : ∀ t, (s.thread t).stage.isOutside = true)
    (hk : Dictionary.find? k s.store.table.entries ≠ none) :
    ∃ i, Dictionary.find? k s.store.table.entries = some (.ready i) := by
  cases he : Dictionary.find? k s.store.table.entries with
  | none => exact absurd he hk
  | some e =>
      cases e with
      | ready i => exact ⟨i, rfl⟩
      | pending u q => exact absurd he (hs.not_pending hout q)

/-- When no call is in progress, the handle of a construction that did not fail is ready, and leads
to what the table has. -/
theorem Coherent.ready_of_unharmed {h : Handle} (hh : Coherent s h) (hs : Legal s)
    (hout : ∀ t, (s.thread t).stage.isOutside = true) (hun : h.Unharmed s.store) :
    ∃ i, h.get? s.store = some i ∧
      Dictionary.find? h.key s.store.table.entries = some (.ready i) := by
  unfold Coherent at hh
  cases htarget : h.target with
  | ready i =>
      simp only [htarget] at hh
      exact ⟨i, by simp only [Handle.get?, htarget], hh⟩
  | slot q =>
      simp only [htarget] at hh
      cases hh with
      | ready i he hq => exact ⟨i, (Handle.get?_slot htarget).2 hq, he⟩
      | lost hq => exact absurd hq (hun q htarget)
      | used x hu =>
          have hstate := hs.slotted.state hu
          cases hu with
          | pending he => exact absurd he (hs.not_pending hout q)
          | @fulfilling u _ hf =>
              have hu := hout u
              cases hst : (s.thread u).stage <;> simp [hst, Stage.fulfils, Stage.isOutside] at hf hu
          | retired => exact absurd hstate (hun q htarget)

/-- A registry at rest, and the requests that were made from outside. -/
structure AtRest (R : Setup ι σ ε ν) (rs : List Request) (s : State ι σ ε ν) : Prop where
  session : ∃ ks, Session R rs ks s
  outside : ∀ t, (s.thread t).stage.isOutside = true
  idle : s.isIdle 0 = true

theorem AtRest.initial (R : Setup ι σ ε ν) (notes : σ) (asked : Nat) :
    AtRest R [] (State.initial notes asked) where
  session := ⟨[], .initial notes asked⟩
  outside _ := rfl
  idle := rfl

theorem AtRest.reachable {rs : List Request} (h : AtRest R rs s) : Reachable R s := by
  obtain ⟨ks, hs⟩ := h.session
  exact hs.reachable

/-- A thread that has replied is idle. -/
theorem State.isIdle_of_reply (h : s.reply t ≠ .unfinished) : s.isIdle t = true := by
  unfold State.reply at h
  split at h
  · simp [State.isIdle, *, Stage.isResting]
  · simp [State.isIdle, *, Stage.isResting]
  · exact absurd rfl h

section AtRest

variable {rs : List Request} (hs : AtRest R rs s)

include hs

/-- **No call is in progress after one that came to its end**, whichever handles were cloned and
dropped meanwhile. -/
theorem AtRest.call (h : Proceeds R 0 (s.call R 0 r) s') (hidle : s'.isIdle 0 = true) :
    AtRest R (r :: rs) s' := by
  obtain ⟨ks, hsession⟩ := hs.session
  have hown := (Own.call hs.reachable hs.outside hs.idle r).proceeds h
  exact ⟨h.session (hsession.event (.call 0 r hs.idle)), hown.outside hidle, hidle⟩

theorem AtRest.resolve {fuel : Nat} {reply : Reply ε} (h : resolve R fuel r s = (reply, s'))
    (hreply : reply ≠ .unfinished) : AtRest R (r :: rs) s' := by
  simp only [Registry.resolve, Prod.mk.injEq] at h
  obtain ⟨hr, rfl⟩ := h
  refine hs.call (Proceeds.refl.runThread fuel) (State.isIdle_of_reply ?_)
  rwa [hr]

theorem AtRest.clone {q : SlotId} (hq : 0 < s.store.handles q) :
    AtRest R rs (s.withStore (s.store.share q)) := by
  obtain ⟨ks, hsession⟩ := hs.session
  exact ⟨⟨_, hsession.event (.clone q hq)⟩, hs.outside, hs.idle⟩

theorem AtRest.drop {q : SlotId} (hq : 0 < s.store.handles q) :
    AtRest R rs (s.withStore (s.store.release q)) := by
  obtain ⟨ks, hsession⟩ := hs.session
  exact ⟨⟨_, hsession.event (.drop q hq)⟩, hs.outside, hs.idle⟩

end AtRest

end SchemaGraph.Registry
