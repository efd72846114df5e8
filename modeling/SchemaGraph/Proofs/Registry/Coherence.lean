/-
**Handles and the table agree.**

A handle may outlive many attempts at its key.  A slot that was given out stays with the key as long
as handles to it are alive: a failed construction leaves it for the next attempt, and the attempt
that succeeds fulfils it.  A slot without handles is forgotten when the construction fails, and
nobody can ask it any more.

Main definitions:

* `Issued` — a handle that was given out;
* `Tracks`, `Coherent` — **the invariant**: what became of the slot, and of a handle.

Main results:

* `Tracks.of_spares`, `Turn.tracks`, `Change.coherent` — a handle that agrees with the table keeps
  doing so;
* `Legal.coherent_reporting` — a handle agrees with the table when it is given out;
* `handle_coherent` — **a handle leads to the instance of its key, whichever attempt constructs
  it**.
-/

import SchemaGraph.Proofs.Registry.Lifecycle

set_option autoImplicit false

namespace SchemaGraph.Registry

open Relation (ReflTransGen)

variable {ι σ ε ν : Type} {R : Setup ι σ ε ν} {s s' : State ι σ ε ν} {t : ThreadId} {k : Key}
  {q : SlotId} {h : Handle} {i : InstanceId}

/-! ### What a handle leads to -/

theorem Handle.get_eq_ok_iff {S : Store ι} :
    (h.get S : Except (RegistryError ε) InstanceId) = .ok i ↔ h.get? S = some i := by
  unfold get
  cases h.get? S <;> simp

theorem Handle.get?_slot {S : Store ι} (ht : h.target = .slot q) :
    h.get? S = some i ↔ S.slotState? q = some (.ready i) := by
  simp only [get?, ht, Store.slotState?]
  cases S.slots[q]? with
  | none => simp
  | some x => cases hx : x.state <;> simp [Slot.instance?, hx]

/-! ### The life of a slot that was given out -/

/-- What becomes of a slot that was given out for a key. -/
inductive Tracks (s : State ι σ ε ν) (k : Key) (q : SlotId) : Prop where
  /-- it is in use for the key -/
  | used (x : SlotState) : Uses s k q x → Tracks s k q
  /-- it leads to the instance of the key -/
  | ready (i : InstanceId) : Dictionary.find? k s.store.table.entries = some (.ready i) →
      s.store.slotState? q = some (.ready i) → Tracks s k q
  /-- it was abandoned without handles, and nobody uses it again -/
  | lost : s.store.slotState? q = some .abandoned → s.store.handles q = 0 →
      (∀ j x, ¬ Uses s j q x) → Tracks s k q

/-- A slot that nothing happens to keeps leading where it led. -/
theorem Tracks.of_spares (ht : Tracks s k q) (hsp : Spares s s' q)
    (hready : ∀ i, Dictionary.find? k s.store.table.entries = some (.ready i) →
      Dictionary.find? k s'.store.table.entries = some (.ready i)) : Tracks s' k q := by
  cases ht with
  | used x hu => exact .used x ((hsp.uses k x).2 hu)
  | ready i he hq => exact .ready i (hready i he) (hsp.state.trans hq)
  | lost hq hh hu =>
      refine .lost (hsp.state.trans hq) (hsp.handles hu hh) fun j x hj => ?_
      exact hu j x ((hsp.uses j x).1 hj)

/-- A slot that is in use leads nowhere but to the key that uses it. -/
theorem Tracks.key_eq (ht : Tracks s k q) (hl : Slotted s) {j : Key} {x : SlotState}
    (hu : Uses s j q x) : j = k := by
  cases ht with
  | used y hy => exact hl.one_key hu hy
  | ready i he hq =>
      have hx := (hl.state hu).symm.trans hq
      cases hu <;> simp at hx
  | lost hq hh hno => exact absurd hu (hno j x)

theorem Tracks.exists_state (ht : Tracks s k q) (hl : Slotted s) :
    ∃ x, s.store.slotState? q = some x := by
  cases ht with
  | used x hu => exact ⟨x, hl.state hu⟩
  | ready i he hq => exact ⟨_, hq⟩
  | lost hq => exact ⟨_, hq⟩

/-- A slot that was given out for a key is claimed by no other. -/
theorem Tracks.claim_key_eq (ht : Tracks s k q) (hl : Slotted s) {j : Key}
    (hq : (s.store.claim t j).1 = q) : j = k := by
  cases hr : Dictionary.find? j s.store.table.retired with
  | some p =>
      rw [(Store.claim_of_retired hr t).1] at hq
      rw [hq] at hr
      exact ht.key_eq hl (.retired hr)
  | none =>
      obtain ⟨x, hx⟩ := ht.exists_state hl
      have hlt := Store.lt_size_of_slotState? hx
      rw [← hq, (Store.claim_of_fresh hr t).1] at hlt
      exact absurd hlt (Nat.lt_irrefl _)

theorem Turn.tracks (hc : Turn s s') (hs : Settled s) (hl : Slotted s) (ht : Tracks s k q) :
    Tracks s' k q := by
  have hready : ∀ i, Dictionary.find? k s.store.table.entries = some (.ready i) →
      Dictionary.find? k s'.store.table.entries = some (.ready i) := fun i => hc.ready
  cases hc with
  | claim t j hnone hS hf hp =>
      by_cases hq : (s.store.claim t j).1 = q
      · -- the next attempt takes the slot that the last one left
        have hj := ht.claim_key_eq hl hq
        exact .used .waiting ((uses_claim_iff hs hnone hS hf).2 (Or.inl ⟨hj, hq, rfl⟩))
      · exact ht.of_spares (spares_claim hs ((hl.claimed j t).2.1 q hq) hnone hS hf hq) hready
  | publish t j p x hpend hS hnone hf hp =>
      exact ht.of_spares (spares_publish hpend hS hnone hf q) hready
  | fulfil t j p i hfull hpub hS hf hp =>
      by_cases hq : p = q
      · subst hq
        obtain rfl := ht.key_eq hl (.fulfilling hfull)
        refine .ready i (hready i (hs.published hpub)) ?_
        rw [hS, Store.slotState?_fulfil_self (hl.state (.fulfilling hfull))]
      · exact ht.of_spares (spares_fulfil hs hl.one_key hfull hS hf hq) hready
  | rollBack t j p hpend hS hf hp =>
      by_cases hq : p = q
      · subst hq
        obtain rfl := ht.key_eq hl (.pending hpend)
        have huse : ∀ {k q x}, Uses s' k q x ↔
            (j = k ∧ p = q ∧ x = .abandoned ∧ 0 < s.store.handles p) ∨ (p ≠ q ∧ Uses s k q x) :=
          uses_rollBack_iff hs hl.one_key hpend hS hf
        -- with handles the slot is kept for a retry, without them it is out of reach
        rcases Nat.eq_zero_or_pos (s.store.handles p) with hz | hpos
        · refine .lost ?_ ?_ fun k x hu => ?_
          · rw [hS, Store.slotState?_rollBack_self (hl.state (.pending hpend))]
          · rw [hS, Store.handles_rollBack, hz]
          · rcases huse.1 hu with ⟨-, -, -, hpos⟩ | ⟨hne, -⟩
            · omega
            · exact hne rfl
        · exact .used .abandoned (huse.2 (Or.inl ⟨rfl, rfl, rfl, hpos⟩))
      · exact ht.of_spares (spares_rollBack hs hl.one_key hpend hS hf hq) hready

/-! ### Handles -/

/-- A handle agrees with the table. -/
def Coherent (s : State ι σ ε ν) (h : Handle) : Prop :=
  match h.target with
  | .ready i => Dictionary.find? h.key s.store.table.entries = some (.ready i)
  | .slot q => Tracks s h.key q

theorem Change.coherent (hc : Change s s') (hs : Legal s) (hh : Coherent s h) :
    Coherent s' h := by
  unfold Coherent at hh ⊢
  cases ht : h.target with
  | ready i =>
      simp only [ht] at hh ⊢
      exact hc.ready hs.owned hh
  | slot q =>
      simp only [ht] at hh ⊢
      rcases hc.quiet_or_turn hs.owned with hc | hc
      · exact hh.of_spares (hc.spares q) fun i he => hc.entries ▸ he
      · exact hc.tracks hs.settled hs.slotted hh

theorem Stage.Answers.coherent {c : Call ι σ ε ν} {o : Outcome} {stage : Stage ι σ ε ν}
    (ha : stage.Answers s.store.table) (hst : stage = .reporting c o h) : Coherent s h := by
  subst hst
  obtain ⟨i, rfl, hi⟩ := ha
  exact hi

theorem Thread.reporting_notify {th : Thread ι σ ε ν} {c : Call ι σ ε ν} {o : Outcome}
    (ht : th.notify.stage = .reporting c o h) : th.stage = .reporting c o h := by
  obtain ⟨frames, stage⟩ := th
  cases stage <;> simp_all [notify]

/-- When one thread goes on, either it begins to report a handle or the report is an old one. -/
theorem reporting_put {S : Store ι} {frames : List (Frame ι σ ε ν)} {stage : Stage ι σ ε ν}
    {u : ThreadId} {c : Call ι σ ε ν} {o : Outcome}
    (hst : (((s.withStore S).put t frames stage).thread u).stage = .reporting c o h) :
    stage = .reporting c o h ∨ (s.thread u).stage = .reporting c o h := by
  rw [State.thread_put] at hst
  split at hst
  · exact Or.inl hst
  · exact Or.inr hst

theorem Change.reporting (hc : Change s s') (hs : Settled s) {c : Call ι σ ε ν} {o : Outcome}
    (hst : (s'.thread t).stage = .reporting c o h) :
    (s.thread t).stage = .reporting c o h ∨ Coherent s' h := by
  cases hc with
  | prelude hp =>
      cases hp with
      | aside ht => exact Or.inl (by rwa [State.thread_congr ht] at hst)
      | wake => exact Or.inl ((reporting_put hst).resolve_left (by simp))
  | pass hth hp =>
      exact (reporting_put (S := s.store) hst).symm.imp_right fun h' =>
        Stage.Answers.coherent (s := s.put _ _ _) hp.answers h'
  | arrive hr hcalm hfits ha =>
      exact (reporting_put (S := s.store) hst).symm.imp_right fun h' =>
        Stage.Answers.coherent (s := s.put _ _ _) ha h'
  | @share t u frames c' w p hth he =>
      refine (reporting_put hst).symm.imp_right fun h' => ?_
      simp only [Stage.reporting.injEq] at h'
      rw [← h'.2.2]
      exact .used .waiting (.pending he)
  | sleep => exact Or.inl ((reporting_put hst).resolve_left (by simp))
  | claim => exact Or.inl ((reporting_put hst).resolve_left (by simp))
  | publish => exact Or.inl ((reporting_put hst).resolve_left (by simp))
  | fulfil => exact Or.inl ((reporting_put hst).resolve_left (by simp))
  | rollBack => exact Or.inl ((reporting_put hst).resolve_left (by simp))
  | @announce u frames c' result hth =>
      by_cases hut : u = t
      · subst hut
        rw [State.thread_announce_self] at hst
        cases result with
        | error failure => simp at hst
        | ok i =>
            simp only [Stage.reporting.injEq] at hst
            have hp : (s.thread u).stage.published = some (c'.key, i) := by
              rw [hth]
              rfl
            rw [← hst.2.2]
            exact Or.inr (hs.published hp)
      · rw [State.thread_announce_of_ne hut] at hst
        exact Or.inl (Thread.reporting_notify hst)
  | clone => exact Or.inl hst
  | drop => exact Or.inl hst

/-- A handle agrees with the table when it is given out. -/
theorem Legal.coherent_reporting (hs : Legal s) {c : Call ι σ ε ν} {o : Outcome}
    (hst : (s.thread t).stage = .reporting c o h) : Coherent s h := by
  induction hs with
  | initial => simp [State.initial, State.thread, Thread.atRest] at hst
  | change hs hc ih =>
      rcases hc.reporting hs.settled hst with hold | hnew
      · exact hc.coherent hs (ih hold)
      · exact hnew

theorem Legal.coherent_of_changes (hs : Legal s) (hc : ReflTransGen Change s s')
    (hh : Coherent s h) : Coherent s' h := by
  induction hc with
  | refl => exact hh
  | tail hc hlast ih => exact hlast.coherent (hs.changes hc) ih

/-! ### What the holder of a handle sees -/

/-- The handle that a thread is about to return. -/
def State.given? (s : State ι σ ε ν) (t : ThreadId) : Option Handle :=
  match s.stage? t with
  | some (.reporting _ _ h) => some h
  | _ => none

/-- A handle that was given out, by whichever attempt, and the run went on. -/
def Issued (R : Setup ι σ ε ν) (h : Handle) (s : State ι σ ε ν) : Prop :=
  ∃ (s₀ : State ι σ ε ν) (t : ThreadId), Reachable R s₀ ∧ s₀.given? t = some h ∧ Run R s₀ s

theorem State.reporting_of_given? (hg : s.given? t = some h) :
    ∃ c o, (s.thread t).stage = .reporting c o h := by
  unfold given? at hg
  split at hg
  · rename_i c o h' hst
    simp only [Option.some.injEq] at hg
    exact ⟨c, o, by rw [thread_of_stage? hst, hg]⟩
  · simp at hg

theorem Issued.reachable (hi : Issued R h s) : Reachable R s := by
  obtain ⟨s₀, t, hr, -, hrun⟩ := hi
  exact hr.run hrun

theorem Issued.next (hi : Issued R h s) (hn : Next R s s') : Issued R h s' := by
  obtain ⟨s₀, t, hr, hg, hrun⟩ := hi
  exact ⟨s₀, t, hr, hg, hrun.next hn⟩

theorem Issued.coherent (hi : Issued R h s) : Coherent s h := by
  obtain ⟨s₀, t, hr, hg, hrun⟩ := hi
  obtain ⟨c, o, hst⟩ := State.reporting_of_given? hg
  exact hr.legal.coherent_of_changes hrun.changes (hr.legal.coherent_reporting hst)

theorem Coherent.ready_of_get? (hh : Coherent s h) (hl : Slotted s)
    (hg : h.get? s.store = some i) : s.store.table.ready? h.key = some i := by
  rw [Table.ready?_eq_some_iff]
  unfold Coherent at hh
  cases ht : h.target with
  | ready j =>
      simp only [ht] at hh
      simp only [Handle.get?, ht, Option.some.injEq] at hg
      rw [← hg]
      exact hh
  | slot q =>
      simp only [ht] at hh
      rw [Handle.get?_slot ht] at hg
      cases hh with
      | used x hu =>
          have hx := (hl.state hu).symm.trans hg
          cases hu <;> simp at hx
      | ready j he hq =>
          have hx := hq.symm.trans hg
          simp only [Option.some.injEq, SlotState.ready.injEq] at hx
          rw [← hx]
          exact he
      | lost hq => exact absurd (hq.symm.trans hg) (by simp)

/-- A handle that is alive leads to the instance of its key, unless its slot is about to be
fulfilled. -/
theorem Coherent.get?_of_ready (hh : Coherent s h) (hs : Settled s)
    (hcount : h.isCounted s.store = true)
    (hf : ∀ t q, (s.thread t).stage.fulfils ≠ some (h.key, q))
    (hr : s.store.table.ready? h.key = some i) : h.get? s.store = some i := by
  rw [Table.ready?_eq_some_iff] at hr
  unfold Coherent at hh
  cases ht : h.target with
  | ready j =>
      simp only [ht] at hh
      have hx := hh.symm.trans hr
      simp only [Option.some.injEq, Entry.ready.injEq] at hx
      simp only [Handle.get?, ht, hx]
  | slot q =>
      simp only [ht] at hh
      rw [Handle.get?_slot ht]
      simp only [Handle.isCounted, ht, decide_eq_true_eq] at hcount
      cases hh with
      | used x hu =>
          cases hu with
          | pending hp => exact absurd (hr.symm.trans hp) (by simp)
          | fulfilling hu => exact absurd hu (hf _ _)
          | retired hq => exact absurd (hr.symm.trans (hs.absent hq)) (by simp)
      | ready j he hq =>
          have hx := he.symm.trans hr
          simp only [Option.some.injEq, Entry.ready.injEq] at hx
          rw [hq, hx]
      | lost hq hz => omega

/-- A fulfilled slot stays as it is. -/
theorem Turn.slot_ready (hc : Turn s s') (hq : s.store.slotState? q = some (.ready i)) :
    s'.store.slotState? q = some (.ready i) := by
  cases hc with
  | claim t k _ hS =>
      rw [hS]
      exact Store.slotState?_claim_of_ready hq t k
  | publish t k p x _ hS =>
      rw [hS]
      exact hq
  | fulfil t k p j _ _ hS =>
      rw [hS]
      exact Store.slotState?_modifySlot_of_ready (fun x hx => Slot.fulfil_of_ready hx j) hq p
  | rollBack t k p _ hS =>
      rw [hS]
      exact Store.slotState?_modifySlot_of_ready (f := Slot.abandon)
        (fun x hx => Slot.abandon_of_ready hx) hq p

theorem Change.get? (hc : Change s s') (ho : Owned s) (hg : h.get? s.store = some i) :
    h.get? s'.store = some i := by
  cases ht : h.target with
  | ready j =>
      simp only [Handle.get?, ht] at hg ⊢
      exact hg
  | slot q =>
      rw [Handle.get?_slot ht] at hg ⊢
      rcases hc.quiet_or_turn ho with hc | hc
      · exact (hc.state q).trans hg
      · exact hc.slot_ready hg

theorem Legal.get?_of_changes (hs : Legal s) (hc : ReflTransGen Change s s')
    (hg : h.get? s.store = some i) : h.get? s'.store = some i := by
  induction hc with
  | refl => exact hg
  | tail hc hlast ih => exact hlast.get? (hs.changes hc).owned ih

/-- A thread that is about to fulfil the slot of a key does so with its next step. -/
theorem exists_step_fulfils (hs : Settled s) (hf : (s.thread t).stage.fulfils = some (k, q)) :
    ∃ s', step R t s = some s' ∧ (∀ h : Handle, h.isCounted s'.store = h.isCounted s.store) ∧
      ∀ u p, (s'.thread u).stage.fulfils ≠ some (k, p) := by
  obtain ⟨f, i, hst, rfl, rfl⟩ := Stage.eq_of_fulfils hf
  have hfind := State.find?_of_thread rfl (Thread.ne_atRest_of_fulfils hf)
  refine ⟨(s.withStore (s.store.fulfil f.slot i)).put t (s.thread t).frames
    (.ending f.call (.ok i)), ?_, fun h => ?_, fun u p hu => ?_⟩
  · simp only [step, hfind, Option.bind_some, stepThread, hst]
  · cases ht : h.target <;> simp [Handle.isCounted, ht]
  · rw [State.thread_put] at hu
    split at hu
    · simp [Stage.fulfils] at hu
    · -- no other thread fulfils a slot of the key
      exact absurd (hs.once hf hu) ‹_›

/-- **A handle leads to the instance of its key, whichever attempt constructs it.**  What it leads
to is what the table holds.  While the handle is alive, what the table holds is what it leads to,
but for the moment between publishing the instance and fulfilling the slot; that moment ends with
the next step of the thread that publishes.  So handles of one key never lead to different
instances, and what a handle leads to never changes. -/
theorem handle_coherent (hi : Issued R h s) :
    (∀ i, (h.get s.store : Except (RegistryError ε) InstanceId) = .ok i →
      s.store.table.ready? h.key = some i) ∧
    (h.isCounted s.store = true → (∀ t q, (s.thread t).stage.fulfils ≠ some (h.key, q)) →
      ∀ i, s.store.table.ready? h.key = some i →
        (h.get s.store : Except (RegistryError ε) InstanceId) = .ok i) ∧
    (h.isCounted s.store = true → ∀ t q, (s.thread t).stage.fulfils = some (h.key, q) →
      ∃ s' i, step R t s = some s' ∧ s.store.table.ready? h.key = some i ∧
        (h.get s'.store : Except (RegistryError ε) InstanceId) = .ok i) ∧
    (∀ h' i j, Issued R h' s → h'.key = h.key →
      (h.get s.store : Except (RegistryError ε) InstanceId) = .ok i →
      (h'.get s.store : Except (RegistryError ε) InstanceId) = .ok j → i = j) ∧
    ∀ s' i, Run R s s' → (h.get s.store : Except (RegistryError ε) InstanceId) = .ok i →
      (h.get s'.store : Except (RegistryError ε) InstanceId) = .ok i := by
  have hs := hi.reachable.legal
  simp only [Handle.get_eq_ok_iff]
  have hready : ∀ i, h.get? s.store = some i → s.store.table.ready? h.key = some i :=
    fun i hg => hi.coherent.ready_of_get? hs.slotted hg
  refine ⟨hready, ?_, ?_, ?_, ?_⟩
  · intro hcount hf i hr
    exact hi.coherent.get?_of_ready hs.settled hcount hf hr
  · intro hcount t q hf
    obtain ⟨i, hr⟩ := hs.settled.fulfils hf
    obtain ⟨s', hstep, hcount', hf'⟩ := exists_step_fulfils (R := R) hs.settled hf
    have hi' := hi.next (.step t hstep)
    refine ⟨s', i, hstep, Table.ready?_eq_some_iff.2 hr, ?_⟩
    refine hi'.coherent.get?_of_ready hi'.reachable.legal.settled ?_ hf' ?_
    · rw [hcount', hcount]
    · rw [Table.ready?_eq_some_iff]
      exact hs.ready_of_changes (Next.step t hstep).takes.changes hr
  · intro h' i j hi' hk hg hg'
    have hr := hready i hg
    have hr' := hi'.coherent.ready_of_get? hs.slotted hg'
    rw [hk, hr] at hr'
    exact Option.some.inj hr'
  · intro s' i hrun hg
    exact hs.get?_of_changes hrun.changes hg

/-- The forward reference that the first attempt is given. -/
def forward : Handle := (firstAttempt.given? 0).getD default

/-- The end of the second attempt. -/
def retried : State Nat Nat String Unit :=
  runThread flaky 0 20 ((runThread flaky 0 20 firstAttempt).call flaky 0 ⟨.bare "Node", none⟩)

theorem forward_coherent : Issued flaky forward retried ∧
    (forward.get firstAttempt.store : Except (RegistryError String) InstanceId)
      = .error forward.unresolved ∧
    (forward.get retried.store : Except (RegistryError String) InstanceId) = .ok 0 := by
  have hcall : Run flaky firstAttempt
      ((runThread flaky 0 20 firstAttempt).call flaky 0 ⟨.bare "Node", none⟩) :=
    (run_runThread _ _ _ _).next (.call 0 _ (by decide +kernel))
  have hissued : Issued flaky forward retried :=
    ⟨firstAttempt, 0, reachable_firstAttempt, by decide +kernel,
      hcall.trans (run_runThread _ _ _ _)⟩
  refine ⟨hissued, by decide +kernel, ?_⟩
  -- at the end of the second attempt the only thread is at rest
  have hrest : ∀ t, (retried.thread t).stage.fulfils = none :=
    State.forall_thread (P := fun th => th.stage.fulfils = none) rfl (by decide +kernel)
  refine (handle_coherent hissued).2.1 (by decide +kernel) (fun t q hf => ?_) 0 (by decide +kernel)
  simp [hrest] at hf

end SchemaGraph.Registry
