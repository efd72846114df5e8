/-
**What a call of a single thread is answered with.**

A call is run to its end while nothing else happens.  On the way its thread may construct other
types, one inside the other; the call that it began with stays at the bottom, and the answer is an
answer to that one.

Main definitions:

* `Thread.root?` — what the outermost call of a thread asks for;
* `Replying` — a thread is at work on a request, or has answered it.

Main results:

* `Moved.replying` — a thread stays at work on its request until that is answered;
* `resolve_reply` — **a reply holds of the request**, whatever was constructed on the way;
* `Session.answered` — if all requests of a run can be relied on, no call fails;
* `resolve_of_ready` — a key that is ready is a hit, and nothing is constructed;
* `equal_identifiers_share` — **equal identifiers share one instance**.
-/

import SchemaGraph.Proofs.Identity.Equality
import SchemaGraph.Proofs.Identity.Unambiguous
import SchemaGraph.Proofs.Registry.Origin

set_option autoImplicit false

namespace SchemaGraph.Registry

variable {ι σ ε ν : Type} {R : Setup ι σ ε ν} {V D : Request → Prop} {s s' : State ι σ ε ν}
  {t : ThreadId} {k : Key} {r : Request}

/-! ### The outermost call -/

/-- The call that a thread is about to go on with, if it runs no factory. -/
def Stage.call? : Stage ι σ ε ν → Option (Call ι σ ε ν)
  | .looking c _ | .asleep c _ | .ending c _ | .reporting c _ _ | .failing c _ => some c
  | .fulfilling f _ => some f.call
  | _ => none

/-- What the outermost call of a thread asks for. -/
def Thread.root? (th : Thread ι σ ε ν) : Option Request :=
  match th.frames.getLast? with
  | some f => some f.call.request
  | none => th.stage.call?.map Call.request

theorem Stage.call?_of_looks {stage : Stage ι σ ε ν} {c : Call ι σ ε ν}
    (h : stage.looks = some c) : stage.call? = some c := by
  cases stage with
  | looking c' w => exact h
  | asleep c' notified =>
      cases notified with
      | false => simp [looks] at h
      | true => exact h
  | _ => simp [looks] at h

/-- Inside a construction the stage does not matter. -/
theorem Thread.root?_of_frames {frames : List (Frame ι σ ε ν)} (h : frames ≠ [])
    (stage stage' : Stage ι σ ε ν) : Thread.root? ⟨frames, stage⟩ = Thread.root? ⟨frames, stage'⟩ := by
  cases hf : frames.getLast? with
  | none => exact absurd (List.getLast?_eq_none_iff.1 hf) h
  | some f => simp only [root?, hf]

/-- The constructions on top do not matter. -/
theorem Thread.root?_cons (f : Frame ι σ ε ν) {frames : List (Frame ι σ ε ν)}
    {stage stage' : Stage ι σ ε ν} (h : stage'.call? = some f.call) :
    Thread.root? ⟨f :: frames, stage⟩ = Thread.root? ⟨frames, stage'⟩ := by
  cases hf : frames.getLast? with
  | none =>
      rw [List.getLast?_eq_none_iff] at hf
      subst hf
      simp [root?, h]
  | some g =>
      have hlast : (f :: frames).getLast? = some g := by
        rw [List.getLast?_cons, hf, Option.getD_some]
      simp only [root?, hf, hlast]

/-- A thread outside calls is at work on nothing. -/
theorem Thread.Linked.root?_eq_none {th : Thread ι σ ε ν} (hl : th.Linked)
    (h : th.stage.isOutside = true) : th.root? = none := by
  have hframes := hl.frames_of_outside h
  obtain ⟨frames, stage⟩ := th
  subst hframes
  cases stage <;> first | rfl | simp [Stage.isOutside] at h

/-- A thread in a call is at work on a request. -/
theorem Thread.Linked.exists_root {th : Thread ι σ ε ν} (hl : th.Linked)
    (h : th.stage.isOutside = false) : ∃ r, th.root? = some r := by
  obtain ⟨frames, stage⟩ := th
  cases hf : frames.getLast? with
  | some f => exact ⟨f.call.request, by simp only [root?, hf]⟩
  | none =>
      rw [List.getLast?_eq_none_iff] at hf
      subst hf
      cases stage with
      | running => exact absurd rfl hl.fits
      | awaiting | returned | panicked | awaited => cases h
      | _ => exact ⟨_, rfl⟩

/-- A thread is at work on a request, or has answered it. -/
inductive Replying (D : Request → Prop) (s : State ι σ ε ν) (r : Request) (th : Thread ι σ ε ν) :
    Prop where
  | working : th.root? = some r → Replying D s r th
  | answered (a : Answer ε) : th.stage = .returned a → Holds D s r a → Replying D s r th
  | broken (message : String) : th.stage = .panicked message → ¬ D r → Replying D s r th

section

variable {frames : List (Frame ι σ ε ν)} {c : Call ι σ ε ν}

/-- An answer is delivered to the outermost call, or to a construction above it. -/
theorem Proper.replying {a : Answer ε} (hc : Proper R V D s frames c)
    {stage : Stage ι σ ε ν} (hcall : stage.call? = some c)
    (hr : Thread.root? ⟨frames, stage⟩ = some r) (ha : Holds D s c.request a) :
    Replying D s r ⟨frames, c.deliver a⟩ := by
  cases frames with
  | nil =>
      have hreq : c.request = r := by simpa [Thread.root?, hcall] using hr
      refine .answered a ?_ (hreq ▸ ha)
      rw [Call.deliver, hc.bottom rfl]
      rfl
  | cons f rest =>
      exact .working ((Thread.root?_of_frames (by simp) _ _).trans hr)

theorem Proper.replyingFailure (hc : Proper R V D s frames c) {stage : Stage ι σ ε ν}
    (hcall : stage.call? = some c) (hr : Thread.root? ⟨frames, stage⟩ = some r)
    (hD : ¬ D c.request) (failure : Failure ε) :
    Replying D s r ⟨frames, c.deliverFailure failure⟩ := by
  cases failure with
  | error e => exact hc.replying (a := .error _) hcall hr hD
  | panic message =>
      cases frames with
      | nil =>
          have hreq : c.request = r := by simpa [Thread.root?, hcall] using hr
          refine .broken message ?_ (hreq ▸ hD)
          rw [Call.deliverFailure, hc.bottom rfl]
      | cons f rest =>
          exact .working ((Thread.root?_of_frames (by simp) _ _).trans hr)

end

/-- **A thread stays at work on its request until that is answered.** -/
theorem Moved.replying (hR : Reliable R V D)
    (hmono : ∀ r (a : Answer ε), Holds D s r a → Holds D s' r a) {th th' : Thread ι σ ε ν}
    (hm : Moved R s.store s'.store [] th th') (hst : th.stage.Suits R V D s th.frames)
    (hrest : th.stage.isResting = false) (hr : th.root? = some r) : Replying D s' r th' := by
  have hst' := hst.mono hmono
  have hsame : ∀ {frames : List (Frame ι σ ε ν)} {stage stage' : Stage ι σ ε ν} {c : Call ι σ ε ν},
      stage.call? = some c → stage'.call? = some c → Thread.root? ⟨frames, stage⟩ = some r →
      Replying D s' r ⟨frames, stage'⟩ := by
    intro frames stage stage' c hc hc' hr
    refine .working (Eq.trans ?_ hr)
    simp only [Thread.root?, hc, hc']
  cases hm with
  | stays => exact .working hr
  | awaits _ _ hresting => simp [hresting] at hrest
  | @arrived frames =>
      cases frames with
      | nil => simp [Thread.root?, Stage.call?] at hr
      | cons f rest => exact .working ((Thread.root?_of_frames (by simp) _ _).trans hr)
  | @goes frames =>
      cases frames with
      | nil => simp [Thread.root?, Stage.call?] at hr
      | cons f rest => exact .working ((Thread.root?_of_frames (by simp) _ _).trans hr)
  | asks => exact .working ((Thread.root?_of_frames (by simp) _ _).trans hr)
  | misasks => exact .working ((Thread.root?_of_frames (by simp) _ _).trans hr)
  | refused e hp hlooks hrefuses =>
      have hD := fun hD => hR.served hD hrefuses
      exact (hst'.looks hlooks).replying (a := .error e) (Stage.call?_of_looks hlooks) hr hD
  | hits o hp hlooks => exact hsame (Stage.call?_of_looks hlooks) rfl hr
  | defers hp hlooks => exact hsame (Stage.call?_of_looks hlooks) rfl hr
  | sleeps hp hlooks => exact hsame (Stage.call?_of_looks hlooks) rfl hr
  | @claims frames stage c factory f t hlooks hf =>
      have hcall := Stage.call?_of_looks hlooks
      rw [← hf] at hcall
      exact .working ((Thread.root?_cons f hcall).trans hr)
  | publishes => exact .working ((Thread.root?_cons _ rfl).symm.trans hr)
  | undoes => exact .working ((Thread.root?_cons _ rfl).symm.trans hr)
  | fulfils => exact hsame rfl rfl hr
  | succeeds => exact hsame rfl rfl hr
  | failed => exact hsame rfl rfl hr
  | reports => exact hst'.1.replying rfl hr hst'.2
  | reportsFailure => exact hst'.1.replyingFailure rfl hr hst'.2 _

/-! ### A call and its reply -/

theorem step_eq_none_of_thread (h : (s.thread t).stage.isResting = true) : step R t s = none := by
  cases hf : Dictionary.find? t s.threads with
  | none => simp [step, hf]
  | some th =>
      rw [State.thread_of_find? hf] at h
      exact step_eq_none_of_resting (by simp [State.stage?, hf]) h

theorem not_resting_of_step (hstep : step R t s = some s') :
    (s.thread t).stage.isResting = false := by
  by_contra h
  rw [Bool.not_eq_false] at h
  simp [step_eq_none_of_thread h] at hstep

/-- What a run of one thread leads to, when the thread is at work on a request. -/
theorem runThread_replying (hR : Reliable R V D) {rs : List Request} {ks : List Key}
    (hs : Session R rs ks s) (hrs : ∀ r ∈ rs, V r) (hr : Replying D s r (s.thread t)) (n : Nat) :
    (∃ ks', Session R rs ks' (runThread R t n s)) ∧
      Replying D (runThread R t n s) r ((runThread R t n s).thread t) := by
  induction n generalizing s ks with
  | zero => exact ⟨⟨ks, hs⟩, hr⟩
  | succ n ih =>
      rw [runThread_succ]
      cases hstep : step R t s with
      | none => exact ⟨⟨ks, hs⟩, hr⟩
      | some s' =>
          have he : Event R s [] s' := .step t hstep
          have ht := hs.traceable hR hrs
          have hmono : ∀ r (a : Answer ε), Holds D s r a → Holds D s' r a :=
            fun r a => ht.holds hR hs.reachable.legal he
          have hrest := not_resting_of_step hstep
          refine ih (hs.event he) ?_
          cases hr with
          | working hroot =>
              exact (motion_step hstep).moved.replying hR hmono (ht.suits t) hrest hroot
          | answered a ha => simp [ha, Stage.isResting] at hrest
          | broken message hm => simp [hm, Stage.isResting] at hrest

/-- A thread at rest that makes a call is at work on it, or has refused it at once. -/
theorem Moved.begins (hR : Reliable R V D) {th th' : Thread ι σ ε ν}
    (hm : Moved R s.store s'.store [r] th th') : Replying D s' r th' := by
  cases hm with
  | arrives => exact .working rfl
  | misled e hp hrest hk =>
      refine .answered (.error e) rfl fun hD => ?_
      obtain ⟨k, hk'⟩ := hR.keyed hD
      simp [hk] at hk'

/-- A thread that replied with an answer has returned it. -/
theorem State.stage_of_answer {a : Answer ε} (h : s.reply t = .answer a) :
    (s.thread t).stage = .returned a := by
  unfold State.reply at h
  split at h
  · rename_i hst
    rw [State.thread_of_stage? hst, Reply.answer.inj h]
  · cases h
  · cases h

/-- A thread that replied that it broke off has done so. -/
theorem State.stage_of_panicked {message : String} (h : s.reply t = .panicked message) :
    (s.thread t).stage = .panicked message := by
  unfold State.reply at h
  split at h
  · cases h
  · rename_i hst
    rw [State.thread_of_stage? hst, Reply.panicked.inj h]
  · cases h

/-- **A reply holds of the request**, whatever was constructed on the way: it names the key, and it
is an error or a broken construction only if the request cannot be relied on. -/
theorem resolve_reply (hR : Reliable R V D) {rs : List Request} {ks : List Key}
    (hs : Session R rs ks s) (hrs : ∀ r ∈ rs, V r) (hr : V r) (hidle : s.isIdle 0 = true)
    {fuel : Nat} {reply : Reply ε} (h : resolve R fuel r s = (reply, s')) :
    (∃ ks', Session R (r :: rs) ks' s') ∧ (∀ a, reply = .answer a → Holds D s' r a) ∧
      ∀ message, reply = .panicked message → ¬ D r := by
  simp only [resolve, Prod.mk.injEq] at h
  obtain ⟨hreply, hs'⟩ := h
  have hcall : Session R (r :: rs) _ (s.call R 0 r) := hs.event (.call 0 r hidle)
  have hbegin : Replying D (s.call R 0 r) r ((s.call R 0 r).thread 0) :=
    (motion_call r hidle).moved.begins hR
  obtain ⟨hsession, hrep⟩ := runThread_replying hR hcall (List.forall_mem_cons.2 ⟨hr, hrs⟩) hbegin fuel
  rw [hs'] at hreply hsession hrep
  have hlinked := hsession.choose_spec.reachable.legal.linked 0
  refine ⟨hsession, fun a ha => ?_, fun message hm => ?_⟩
  · have hth := State.stage_of_answer (hreply.trans ha)
    cases hrep with
    | working hroot =>
        rw [hlinked.root?_eq_none (by rw [hth]; rfl)] at hroot
        exact absurd hroot (by simp)
    | answered b hb hholds =>
        rw [hth, Stage.returned.injEq] at hb
        exact hb ▸ hholds
    | broken message hm => simp [hth] at hm
  · have hth := State.stage_of_panicked (hreply.trans hm)
    cases hrep with
    | working hroot =>
        rw [hlinked.root?_eq_none (by rw [hth]; rfl)] at hroot
        exact absurd hroot (by simp)
    | answered b hb => simp [hth] at hb
    | broken _ _ hD => exact hD

/-- A thread that moves is not refused, if all requests of the run can be relied on. -/
theorem Moved.answered (hR : Reliable R V V) {S S' : Store ι} {new : List Request}
    {th th' : Thread ι σ ε ν} (hm : Moved R S S' new th th') (hnew : ∀ r ∈ new, V r)
    (hst : th.stage.Suits R V V s th.frames) {e : RegistryError ε}
    (hbefore : th.stage ≠ .returned (.error e)) : th'.stage ≠ .returned (.error e) := by
  cases hm with
  | stays => exact hbefore
  | misled _ _ _ hk =>
      obtain ⟨k, hk'⟩ := hR.keyed (hnew _ List.mem_cons_self)
      rw [hk] at hk'
      cases hk'
  | refused _ _ hlooks hrefuses => exact absurd hrefuses (hR.served (hst.looks hlooks).allowed)
  | @reports _ c _ h =>
      show c.deliver (.ok h) ≠ _
      unfold Call.deliver Stage.answered
      cases c.resume <;> nofun
  | reportsFailure => exact absurd hst.1.allowed hst.2
  | _ => nofun

/-- **If all requests of a run can be relied on, no call fails**, on any thread. -/
theorem Session.answered (hR : Reliable R V V) {rs : List Request} {ks : List Key}
    (hs : Session R rs ks s) (hrs : ∀ r ∈ rs, V r) (t : ThreadId) :
    (∀ c failure, (s.thread t).stage ≠ .failing c failure) ∧
      ∀ e, (s.thread t).stage ≠ .returned (.error e) := by
  refine ⟨fun c failure hst => ?_, fun e => ?_⟩
  · have hsuits := (hs.traceable hR hrs).suits t
    rw [hst] at hsuits
    exact hsuits.2 hsuits.1.allowed
  · induction hs with
    | initial notes asked => nofun
    | event hs he ih =>
        obtain ⟨hnew, hold⟩ := List.forall_mem_append.1 hrs
        obtain ⟨u, hm⟩ := he.motion
        by_cases hu : t = u
        · subst hu
          exact hm.moved.answered hR hnew ((hs.traceable hR hold).suits t) (ih hold)
        · rcases hm.beside t hu with h | h <;> rw [h]
          · exact ih hold
          · intro hst
            refine ih hold ?_
            generalize State.thread _ t = th at hst
            obtain ⟨frames, stage⟩ := th
            cases stage <;> first | exact hst | cases hst

/-- A key that is ready is a hit, and nothing is constructed. -/
theorem resolve_of_ready {i : InstanceId} (hk : r.key = .ok k)
    (hready : Dictionary.find? k s.store.table.entries = some (.ready i)) {fuel : Nat}
    (hfuel : 2 ≤ fuel) : ∃ s', resolve R fuel r s = (.answer (.ok ⟨k, r.reference, .ready i⟩), s') ∧
      s'.store = s.store.count .hit := by
  obtain ⟨s₁, hthreads, hstore, henter⟩ := enter_threads R 0 [] r hk none s
  obtain ⟨n, rfl⟩ := Nat.exists_eq_add_of_le hfuel
  generalize hc : (⟨r, k, r.reference, none⟩ : Call ι σ ε ν) = c at henter
  generalize hh : (⟨k, r.reference, .ready i⟩ : Handle) = h
  -- one step finds the instance, the next reports it, and there are no others
  have hlook : step R 0 (s.call R 0 r) = some (s₁.put 0 [] (.reporting c .hit h)) := by
    rw [State.call, henter, step_put, ← hc, ← hh]
    simp only [stepThread, look, State.store_put, hstore, hready, State.put_put]
    rfl
  have hreport : step R 0 (s₁.put 0 [] (.reporting c .hit h))
      = some (report R 0 [] c .hit h (s₁.put 0 [] (.reporting c .hit h))) := by
    rw [step_put]
    rfl
  have hreturned : Dictionary.find? 0 (report R 0 [] c .hit h
      (s₁.put 0 [] (.reporting c .hit h))).threads = some ⟨[], .returned (.ok h)⟩ := by
    rw [report, State.find?_put_self, ← hc]
    rfl
  have hrest : step R 0 (report R 0 [] c .hit h (s₁.put 0 [] (.reporting c .hit h))) = none := by
    rw [step, hreturned]
    rfl
  have hrun : runThread R 0 (2 + n) (s.call R 0 r)
      = report R 0 [] c .hit h (s₁.put 0 [] (.reporting c .hit h)) := by
    rw [Nat.add_comm, runThread_succ, hlook, Option.map_some, Option.getD_some, runThread_succ,
      hreport, Option.map_some, Option.getD_some, runThread_of_none hrest]
  refine ⟨_, Prod.ext ?_ hrun, ?_⟩
  · rw [resolve, hrun, State.reply, State.stage?, hreturned]
    rfl
  · simp [hstore]

/-! ### Equal identifiers -/

/-- **Equal identifiers share one instance.**  Both have a key or neither has.  If their floats are
identical bit by bit, as they are unless one of them holds a negative zero, the key is the same:
once a call for one of them has led to an instance, a call for the other is a hit that leads to the
same, whatever happened in between, and nothing is constructed. -/
theorem equal_identifiers_share {a b : Identifier} {c d : Option Context} (ha : a.Distinct)
    (hb : b.Distinct) (hsame : a.same b = true)
    (hscope : c.map Context.name = d.map Context.name) :
    ((∃ k, Key.ofIdentifier a c = .ok k) ↔ ∃ k, Key.ofIdentifier b d = .ok k) ∧
    (a.Unsigned → b.Unsigned → a.agrees Decimal.Binary64.identical b = true) ∧
    (a.agrees Decimal.Binary64.identical b = true →
      (∀ k j, Key.ofIdentifier a c = .ok k → Key.ofIdentifier b d = .ok j → k = j) ∧
      ∀ {ι σ ε ν : Type} (R : Setup ι σ ε ν) (s s₁ s₂ : State ι σ ε ν) (fuel fuel' : Nat)
        (h : Handle) (i : InstanceId), Reachable R s → s.isIdle 0 = true →
        resolve R fuel ⟨a, c⟩ s = (.answer (.ok h), s₁) → Run R s₁ s₂ →
        h.get? s₂.store = some i → 2 ≤ fuel' →
        ∃ h' s₃, resolve R fuel' ⟨b, d⟩ s₂ = (.answer (.ok h'), s₃) ∧
          h'.get? s₃.store = some i ∧ s₃.store.instances = s₂.store.instances ∧
          s₃.store.table = s₂.store.table ∧ s₃.store.stats.misses = s₂.store.stats.misses) := by
  refine ⟨?_, Identifier.agrees_of_unsigned ha hsame, fun hbits => ⟨fun k j hk hj => ?_, ?_⟩⟩
  · simp only [Key.ofIdentifier_eq_ok_iff, exists_and_left, exists_eq, and_true]
    exact Identifier.fault?_iff_of_same ha hb hsame
  · rw [Key.ofIdentifier_iff_of_same ha hb hsame hbits hscope, hj, Except.ok.injEq] at hk
    exact hk.symm
  · intro ι σ ε ν R s s₁ s₂ fuel fuel' h i hs hidle hres hrun hget hfuel
    obtain ⟨rs, ks, hsession⟩ := hs.session
    have hR : Reliable R (fun _ => True) fun _ => False := .nothing fun _ _ => trivial
    obtain ⟨⟨ks', hsession'⟩, hholds, -⟩ :=
      resolve_reply hR hsession (fun _ _ => trivial) trivial hidle hres
    obtain ⟨hk, hcoherent, -⟩ : Holds _ s₁ ⟨a, c⟩ (.ok h) := hholds _ rfl
    have hlegal := hsession'.reachable.legal
    -- the instance is the one of the key, and the key is that of the other identifier
    have hready : Dictionary.find? h.key s₂.store.table.entries = some (.ready i) :=
      Table.ready?_eq_some_iff.1 ((hlegal.coherent_of_changes hrun.changes hcoherent).ready_of_get?
        (hlegal.changes hrun.changes).slotted hget)
    have hkey : Request.key ⟨b, d⟩ = .ok h.key :=
      (Key.ofIdentifier_iff_of_same ha hb hsame hbits hscope _).1 hk
    obtain ⟨s₃, hres', hstore⟩ := resolve_of_ready (R := R) hkey hready hfuel
    exact ⟨_, s₃, hres', rfl, by rw [hstore]; rfl, by rw [hstore]; rfl, by rw [hstore]; rfl⟩

/-- A registry of unions, numbered as they are constructed. -/
def unions : Setup Nat Nat String Unit where
  factories := [("Union", ⟨⟨"union"⟩, fun _ => .note (· + 1) fun n => .done (.new n)⟩)]
  admits := fun _ _ _ => true

/-- The state after a union was requested in one order of its options. -/
def unionsAfter : State Nat Nat String Unit :=
  (resolve unions 9 ⟨union, some hall⟩ (State.initial 0 0)).2

theorem unions_share : union.same reordered = true ∧
    ∃ h' s₃, resolve unions 2 ⟨reordered, some openHall⟩ unionsAfter = (.answer (.ok h'), s₃) ∧
      h'.get? s₃.store = some 0 ∧ s₃.store.instances = unionsAfter.store.instances ∧
      s₃.store.table = unionsAfter.store.table ∧
      s₃.store.stats.misses = unionsAfter.store.stats.misses := by
  have hsame : union.same reordered = true := by decide +kernel
  have hshare := (equal_identifiers_share distinct_union distinct_reordered hsame
    (c := some hall) (d := some openHall) rfl).2.2 (by decide +kernel)
  obtain ⟨h, hres, hget⟩ : ∃ h, resolve unions 9 ⟨union, some hall⟩ (State.initial 0 0)
      = (.answer (.ok h), unionsAfter) ∧ h.get? unionsAfter.store = some 0 :=
    ⟨_, Prod.ext (by rfl) rfl, by decide +kernel⟩
  exact ⟨hsame, hshare.2 unions _ _ _ 9 2 h 0 (.initial 0 0) rfl hres .refl hget (by decide)⟩

end SchemaGraph.Registry
