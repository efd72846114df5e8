/-
**Constructions in progress and the entries of the table.**

While a factory runs the table is not locked, so calls of the same thread, calls of other threads,
failures and broken-off constructions all come between the moment in which a key is claimed and the
moment in which its construction ends.  Through all of them the table and the stacks of the threads
agree: an entry is in progress exactly while a construction of its key stands on the stack of its
owner.

Main definitions:

* `Owned` — **the invariant**: an entry is in progress exactly while its owner constructs the key.

Main results:

* `Owned.push`, `Owned.pop` — a construction begins and ends together with its entry;
* `Legal.linked`, `Legal.owned` — the invariants hold in every state of a run.
-/

import Mathlib.Data.List.Nodup
import SchemaGraph.Proofs.Registry.Change

set_option autoImplicit false

namespace SchemaGraph.Registry

open Relation (ReflGen ReflTransGen)

variable {ι σ ε ν : Type} {R : Setup ι σ ε ν} {s s' : State ι σ ε ν} {t : ThreadId}

/-! ### Calls and the constructions below them -/

theorem linked_put (h : ∀ u, (s.thread u).Linked) {frames : List (Frame ι σ ε ν)}
    {stage : Stage ι σ ε ν} (ht : (⟨frames, stage⟩ : Thread ι σ ε ν).Linked) :
    ∀ u, ((s.put t frames stage).thread u).Linked := by
  intro u
  rw [State.thread_put]
  split
  · exact ht
  · exact h u

theorem Thread.Linked.notify {th : Thread ι σ ε ν} (h : th.Linked) : th.notify.Linked := by
  obtain ⟨frames, stage⟩ := th
  cases stage <;> exact ⟨h.fits, h.nested⟩

theorem Prelude.linked (hc : Prelude s s') (h : ∀ u, (s.thread u).Linked) :
    ∀ u, (s'.thread u).Linked := by
  cases hc with
  | aside ht =>
      intro u
      rw [State.thread_congr ht]
      exact h u
  | @wake t frames c hth =>
      have hl := h t
      rw [hth] at hl
      exact linked_put h ⟨hl.fits, hl.nested⟩

theorem Change.linked (hc : Change s s') (h : ∀ u, (s.thread u).Linked) :
    ∀ u, (s'.thread u).Linked := by
  have hat : ∀ {t : ThreadId} {th : Thread ι σ ε ν}, s.thread t = th → th.Linked :=
    fun hth => hth ▸ h _
  cases hc with
  | prelude hp => exact hp.linked h
  | pass hth hp => exact linked_put h ⟨hp.fits (hat hth).fits, (hat hth).nested⟩
  | arrive _ _ hfits _ => exact linked_put h ⟨hfits, trivial⟩
  | share hth _ => exact linked_put h ⟨(hat hth).fits, (hat hth).nested⟩
  | sleep hth _ _ => exact linked_put h ⟨(hat hth).fits, (hat hth).nested⟩
  | claim p hth _ => exact linked_put h ⟨List.cons_ne_nil _ _, (hat hth).fits, (hat hth).nested⟩
  | publish hth => exact linked_put h ⟨(hat hth).nested.1, (hat hth).nested.2⟩
  | fulfil hth => exact linked_put h ⟨(hat hth).fits, (hat hth).nested⟩
  | rollBack hth => exact linked_put h ⟨(hat hth).nested.1, (hat hth).nested.2⟩
  | @announce t frames c result hth =>
      refine linked_put (s := s.notifyAll) (fun u => ?_) ⟨?_, (hat hth).nested⟩
      · rw [State.thread_notifyAll]
        exact (h u).notify
      · cases result <;> exact (hat hth).fits
  | clone => exact h
  | drop => exact h

/-- Each call knows whether it was made from a construction. -/
theorem Legal.linked (h : Legal s) : ∀ u, (s.thread u).Linked := by
  induction h with
  | initial => exact fun _ => ⟨rfl, trivial⟩
  | change _ hc ih => exact hc.linked ih

/-- A thread at rest has no construction in progress. -/
theorem Thread.Linked.frames_eq_nil {th : Thread ι σ ε ν} (h : th.Linked)
    (hr : th.stage.isResting = true) : th.frames = [] := by
  obtain ⟨frames, stage⟩ := th
  cases stage with
  | returned a => exact h.fits
  | panicked message => exact h.fits
  | awaited a => exact h.fits
  | _ => simp [Stage.isResting] at hr

/-! ### Entries in progress and constructions in progress -/

/-- The table and the threads agree on what is under construction. -/
structure Owned (s : State ι σ ε ν) : Prop where
  /-- an entry is in progress exactly while its owner constructs the key with its slot -/
  pending_iff : ∀ (k : Key) (t : ThreadId) (q : SlotId),
    Dictionary.find? k s.store.table.entries = some (.pending t q) ↔
      ∃ f ∈ (s.thread t).frames, f.call.key = k ∧ f.slot = q
  /-- no thread constructs a key twice -/
  distinct : ∀ t : ThreadId, ((s.thread t).frames.map fun f => f.call.key).Nodup

theorem Owned.pending (h : Owned s) {f : Frame ι σ ε ν} (hf : f ∈ (s.thread t).frames) :
    Dictionary.find? f.call.key s.store.table.entries = some (.pending t f.slot) :=
  (h.pending_iff _ _ _).2 ⟨f, hf, rfl, rfl⟩

/-- Nothing is said about anything but the entries and the constructions. -/
theorem Owned.congr (h : Owned s) (he : s'.store.table.entries = s.store.table.entries)
    (hf : ∀ u, (s'.thread u).frames = (s.thread u).frames) : Owned s' := by
  refine ⟨fun k u q => ?_, fun u => ?_⟩
  · rw [he, hf u]
    exact h.pending_iff k u q
  · rw [hf u]
    exact h.distinct u

theorem frames_put_of_eq {frames : List (Frame ι σ ε ν)} {stage : Stage ι σ ε ν}
    (hth : s.thread t = ⟨frames, stage⟩) (stage' : Stage ι σ ε ν) (u : ThreadId) :
    ((s.put t frames stage').thread u).frames = (s.thread u).frames := by
  rw [State.thread_put]
  split
  · rename_i htu
    rw [← htu, hth]
  · rfl

/-- A thread begins a construction of a key that has no entry. -/
theorem Owned.push (h : Owned s) {frames : List (Frame ι σ ε ν)} {stage stage' : Stage ι σ ε ν}
    (hth : s.thread t = ⟨frames, stage⟩) {f : Frame ι σ ε ν}
    (hnone : Dictionary.find? f.call.key s.store.table.entries = none)
    (hths : ∀ u, s'.thread u = if t = u then ⟨f :: frames, stage'⟩ else s.thread u)
    (he : ∀ k, Dictionary.find? k s'.store.table.entries
      = if f.call.key = k then some (.pending t f.slot)
        else Dictionary.find? k s.store.table.entries) : Owned s' := by
  -- no construction of the key is in progress, for it would have an entry
  have hnew : ∀ u, ∀ g ∈ (s.thread u).frames, g.call.key ≠ f.call.key := by
    intro u g hg hgk
    have := h.pending hg
    rw [hgk, hnone] at this
    exact Option.some_ne_none _ this.symm
  have hfr : (s.thread t).frames = frames := by rw [hth]
  refine ⟨fun k u q => ?_, fun u => ?_⟩
  · rw [he, hths]
    by_cases hk : f.call.key = k
    · subst hk
      by_cases htu : t = u
      · subst htu
        simp only [if_true, Option.some.injEq, Entry.pending.injEq, true_and, List.mem_cons]
        constructor
        · rintro rfl
          exact ⟨f, Or.inl rfl, rfl, rfl⟩
        · rintro ⟨g, rfl | hg, hgk, rfl⟩
          · rfl
          · exact absurd hgk (hnew t g (hfr ▸ hg))
      · simp only [if_true, Option.some.injEq, Entry.pending.injEq, htu, false_and,
          false_iff]
        rintro ⟨g, hg, hgk, -⟩
        exact hnew u g hg hgk
    · rw [if_neg hk, h.pending_iff]
      split
      · rename_i htu
        subst htu
        rw [hfr]
        constructor
        · rintro ⟨g, hg, hgk⟩
          exact ⟨g, List.mem_cons_of_mem _ hg, hgk⟩
        · rintro ⟨g, hg, hgk⟩
          rcases List.mem_cons.1 hg with rfl | hg
          · exact absurd hgk.1 hk
          · exact ⟨g, hg, hgk⟩
      · rfl
  · rw [hths]
    split
    · rename_i htu
      subst htu
      refine List.nodup_cons.2 ⟨?_, hfr ▸ h.distinct t⟩
      intro hmem
      obtain ⟨g, hg, hgk⟩ := List.mem_map.1 hmem
      exact hnew t g (hfr ▸ hg) hgk
    · exact h.distinct u

/-- The innermost construction of a thread ends, and its entry is no longer in progress. -/
theorem Owned.pop (h : Owned s) {f : Frame ι σ ε ν} {frames : List (Frame ι σ ε ν)}
    {stage stage' : Stage ι σ ε ν} (hth : s.thread t = ⟨f :: frames, stage⟩)
    (hths : ∀ u, s'.thread u = if t = u then ⟨frames, stage'⟩ else s.thread u)
    (hk : ∀ u q, Dictionary.find? f.call.key s'.store.table.entries ≠ some (.pending u q))
    (he : ∀ k, f.call.key ≠ k → Dictionary.find? k s'.store.table.entries
      = Dictionary.find? k s.store.table.entries) : Owned s' := by
  have hfr : (s.thread t).frames = f :: frames := by rw [hth]
  have hd : f.call.key ∉ frames.map (fun g => g.call.key)
      ∧ (frames.map fun g => g.call.key).Nodup := by
    have := h.distinct t
    rw [hfr] at this
    exact List.nodup_cons.1 this
  -- every other construction is of another key
  have hother : ∀ u, ∀ g ∈ (s'.thread u).frames,
      g ∈ (s.thread u).frames ∧ f.call.key ≠ g.call.key := by
    intro u g hg
    rw [hths] at hg
    split at hg
    · rename_i htu
      subst htu
      refine ⟨hfr ▸ List.mem_cons_of_mem _ hg, fun hgk => hd.1 ?_⟩
      rw [hgk]
      exact List.mem_map_of_mem hg
    · rename_i htu
      refine ⟨hg, fun hgk => htu ?_⟩
      have h₁ := h.pending (t := t) (f := f) (by rw [hfr]; exact List.mem_cons_self)
      rw [hgk, h.pending hg] at h₁
      simp only [Option.some.injEq, Entry.pending.injEq] at h₁
      exact h₁.1.symm
  refine ⟨fun k u q => ?_, fun u => ?_⟩
  · constructor
    · intro hp
      have hne : f.call.key ≠ k := fun hfk => hk u q (hfk ▸ hp)
      rw [he k hne, h.pending_iff] at hp
      obtain ⟨g, hg, rfl, rfl⟩ := hp
      refine ⟨g, ?_, rfl, rfl⟩
      rw [hths]
      split
      · rename_i htu
        subst htu
        rw [hfr] at hg
        rcases List.mem_cons.1 hg with rfl | hg
        · exact absurd rfl hne
        · exact hg
      · exact hg
    · rintro ⟨g, hg, rfl, rfl⟩
      obtain ⟨hgs, hne⟩ := hother u g hg
      rw [he _ hne]
      exact h.pending hgs
  · rw [hths]
    split
    · exact hd.2
    · exact h.distinct u

theorem Prelude.entries_eq (hp : Prelude s s') :
    s'.store.table.entries = s.store.table.entries := by
  cases hp with
  | aside _ hT => rw [hT]
  | wake => rfl

theorem Prelude.frames_eq (hp : Prelude s s') (u : ThreadId) :
    (s'.thread u).frames = (s.thread u).frames := by
  cases hp with
  | aside ht => rw [State.thread_congr ht]
  | @wake t frames c hth => exact frames_put_of_eq (s := s.withStore (s.store.wake t)) hth _ u

theorem Change.owned (hc : Change s s') (hl : ∀ u, (s.thread u).Linked) (h : Owned s) :
    Owned s' := by
  cases hc with
  | prelude hp => exact h.congr hp.entries_eq hp.frames_eq
  | pass hth _ => exact h.congr rfl (frames_put_of_eq hth _)
  | @arrive t stage hr =>
      have hth : s.thread t = ⟨[], (s.thread t).stage⟩ := by
        rw [← (hl t).frames_eq_nil hr]
      exact h.congr rfl (frames_put_of_eq hth _)
  | share hth _ => exact h.congr rfl (frames_put_of_eq (s := s.withStore _) hth _)
  | sleep hth _ _ => exact h.congr rfl (frames_put_of_eq (s := s.withStore _) hth _)
  | claim p hth hnone =>
      exact h.push hth hnone (fun u => State.thread_put _ _ u _ _)
        (fun k => Store.find?_claim s.store _ _ k)
  | publish hth =>
      refine h.pop hth (fun u => State.thread_put _ _ u _ _) (fun u q => ?_) (fun k hk => ?_)
      · simp [Store.find?_publish]
      · simp [Store.find?_publish, hk]
  | fulfil hth => exact h.congr rfl (frames_put_of_eq (s := s.withStore _) hth _)
  | rollBack hth =>
      refine h.pop hth (fun u => State.thread_put _ _ u _ _) (fun u q => ?_) (fun k hk => ?_)
      · simp [Store.find?_rollBack]
      · simp [Store.find?_rollBack, hk]
  | @announce t frames c result hth =>
      refine h.congr rfl fun u => ?_
      by_cases htu : t = u
      · subst htu
        rw [State.thread_announce_self, hth]
      · rw [State.thread_announce_of_ne htu, Thread.frames_notify]
  | clone => exact h.congr rfl fun _ => rfl
  | drop => exact h.congr rfl fun _ => rfl

/-- **The table and the threads agree on what is under construction.** -/
theorem Legal.owned (h : Legal s) : Owned s := by
  induction h with
  | initial => exact ⟨by simp [State.initial, State.thread, Thread.atRest],
      by simp [State.initial, State.thread, Thread.atRest]⟩
  | change hs hc ih => exact hc.owned hs.linked ih

end SchemaGraph.Registry
