import Patrons.Model.Threads
import Patrons.Verification.Region.Shrink

/-! # Safety of the jump buffer -/

namespace Patrons

namespace Threads

variable {ι : Type*} [DecidableEq ι]

/-- A SIGSEGV would make the handler execute `siglongjmp(time_machine, 1)`. -/
def Jumps (s : Threads ι) : Prop :=
  s.sig.sigsegv = .customSignalHandler ∧ s.sig.iWantHandleSignalFlag = true

/-- Thread `i` made the last `sigsetjmp`, in a call that has not returned. -/
def OwnsBuffer (s : Threads ι) (i : ι) : Prop :=
  s.timeMachine = some (i, s.calls i) ∧ (s.frame? i).isSome = true

/-- A thread between its `sigsetjmp` and the reset of the flag is guarded. -/
def BodiesFlagged (s : Threads ι) : Prop :=
  ∀ i c, s.pc i = .body c → s.sig.iWantHandleSignalFlag = true

/-- The jump that a step makes is into a live frame of its own thread, and the step leaves
every running body with the flag set. -/
def JumpSafe (s : Threads ι) (l : ι × Action) (t : Threads ι) : Prop :=
  (l.2 = .fault → s.Jumps → s.OwnsBuffer l.1) ∧ t.BodiesFlagged

def InSection (s : Threads ι) (i : ι) : Prop :=
  ∃ c, s.pc i = .flagged c ∨ s.pc i = .body c ∨ (s.pc i = .landed c ∧ c = .init)

/-- A section is entered while no other thread is in one, and a SIGSEGV that makes the
handler jump is raised in the guarded body of its thread. -/
def Apart (s : Threads ι) (l : ι × Action) (_ : Threads ι) : Prop :=
  ((∃ c, l.2 = .setFlag c) → ∀ j, j ≠ l.1 → ¬ s.InSection j) ∧
    (l.2 = .fault → s.Jumps → ∃ c, s.pc l.1 = .body c)

/-- At most one thread is in a section, it has the flag set until it is reset, and it owns
the buffer from its `sigsetjmp` on. -/
structure Exclusive (s : Threads ι) : Prop where
  unique : ∀ i j, s.InSection i → s.InSection j → i = j
  flag : ∀ i c, s.pc i = .flagged c ∨ s.pc i = .body c → s.sig.iWantHandleSignalFlag = true
  buffer : ∀ i c, s.pc i = .body c → s.timeMachine = some (i, s.calls i)

omit [DecidableEq ι] in
theorem Exclusive.bodiesFlagged {s : Threads ι} (h : s.Exclusive) : s.BodiesFlagged :=
  fun i c hb => h.flag i c (.inr hb)

/-! ## Steps that keep the sections apart -/

section
variable {s t : Threads ι} {i : ι}

omit [DecidableEq ι] in
theorem Exclusive.congr (h : s.Exclusive) (hpc : t.pc = s.pc) (hcalls : t.calls = s.calls)
    (hbuf : t.timeMachine = s.timeMachine)
    (hflag : t.sig.iWantHandleSignalFlag = s.sig.iWantHandleSignalFlag) : t.Exclusive := by
  have hin : ∀ j, t.InSection j ↔ s.InSection j := by
    intro j
    rw [InSection, InSection, hpc]
  constructor
  · intro j k hj hk
    exact h.unique j k ((hin j).mp hj) ((hin k).mp hk)
  · intro j c hj
    rw [hpc] at hj
    rw [hflag]
    exact h.flag j c hj
  · intro j c hj
    rw [hpc] at hj
    rw [hbuf, hcalls]
    exact h.buffer j c hj

theorem inSection_of_ne {p : Pc} {j : ι} (hpc : t.pc = Function.update s.pc i p) (hj : j ≠ i) :
    t.InSection j ↔ s.InSection j := by
  rw [InSection, InSection, hpc, Function.update_of_ne hj]

theorem Exclusive.leave (h : s.Exclusive) {p : Pc} (hpc : t.pc = Function.update s.pc i p)
    (hout : ¬ t.InSection i) (hcalls : t.calls = s.calls)
    (hbuf : t.timeMachine = s.timeMachine) (hsig : t.sig = s.sig) : t.Exclusive := by
  have hne : ∀ j c, t.pc j = .flagged c ∨ t.pc j = .body c → j ≠ i := by
    intro j c hj hji
    subst hji
    rcases hj with hj | hj
    · exact hout ⟨c, .inl hj⟩
    · exact hout ⟨c, .inr (.inl hj)⟩
  have hsame : ∀ j, j ≠ i → t.pc j = s.pc j := by
    intro j hj
    rw [hpc, Function.update_of_ne hj]
  constructor
  · intro j k hj hk
    have hji : j ≠ i := fun e => hout (e ▸ hj)
    have hki : k ≠ i := fun e => hout (e ▸ hk)
    exact h.unique j k ((inSection_of_ne hpc hji).mp hj) ((inSection_of_ne hpc hki).mp hk)
  · intro j c hj
    rw [hsig]
    apply h.flag j c
    rw [← hsame j (hne j c hj)]
    exact hj
  · intro j c hj
    rw [hbuf, hcalls]
    apply h.buffer j c
    rw [← hsame j (hne j c (.inr hj))]
    exact hj

theorem exclusive_of_alone {p : Pc} (hpc : t.pc = Function.update s.pc i p)
    (halone : ∀ j, j ≠ i → ¬ s.InSection j)
    (hflag : ∀ c, p = .flagged c ∨ p = .body c → t.sig.iWantHandleSignalFlag = true)
    (hbuf : ∀ c, p = .body c → t.timeMachine = some (i, t.calls i)) : t.Exclusive := by
  have hi : ∀ j, t.InSection j → j = i := by
    intro j hj
    by_contra hne
    exact halone j hne ((inSection_of_ne hpc hne).mp hj)
  have hp : t.pc i = p := by
    rw [hpc, Function.update_self]
  constructor
  · intro j k hj hk
    rw [hi j hj, hi k hk]
  · intro j c hj
    have hji : j = i := hi j ⟨c, by tauto⟩
    subst hji
    rw [hp] at hj
    exact hflag c hj
  · intro j c hj
    have hji : j = i := hi j ⟨c, .inr (.inl hj)⟩
    subst hji
    rw [hp] at hj
    exact hbuf c hj

omit [DecidableEq ι] in
theorem Exclusive.alone (h : s.Exclusive) (hi : s.InSection i) :
    ∀ j, j ≠ i → ¬ s.InSection j :=
  fun j hne hj => hne (h.unique j i hj hi)

omit [DecidableEq ι] in
theorem Exclusive.ownsBuffer (h : s.Exclusive) {c : Section} (hb : s.pc i = .body c) :
    s.OwnsBuffer i := by
  refine ⟨h.buffer i c hb, ?_⟩
  rw [frame?, hb]
  rfl

theorem exclusive_deliverTo (h : s.Exclusive) (hbody : s.Jumps → ∃ c, s.pc i = .body c) :
    (s.deliverTo i).Exclusive := by
  unfold deliverTo deliver
  cases hh : s.sig.sigsegv with
  | foreign handler => exact h
  | customSignalHandler =>
      by_cases hf : s.sig.iWantHandleSignalFlag = true
      · have hjump : customSignalHandler s.sig = .jump (s.sig.setFlag false) := by
          simp [customSignalHandler, hf, Signals.setFlag]
        rcases hbody ⟨hh, hf⟩ with ⟨c, hb⟩
        dsimp only
        rw [hjump]
        apply exclusive_of_alone (s := s) (i := i) (p := .landed c)
        · simp [longjmp, frame?, hb, h.buffer i c hb, goto]
        · exact h.alone ⟨c, .inr (.inl hb)⟩
        · simp
        · simp
      · have hback : customSignalHandler s.sig =
            .resumed { s.sig with sigsegv := s.sig.sigActOld } := by
          simp [customSignalHandler, hf]
        dsimp only
        rw [hback]
        exact h.congr rfl rfl rfl rfl

/-! ### What a step does -/

theorem of_step_sigsetjmp (h : s.step i .sigsetjmp = some t) :
    ∃ c, s.pc i = .flagged c ∧
      t = { s.goto i (.body c) with timeMachine := some (i, s.calls i) } := by
  cases hp : s.pc i with
  | flagged c =>
      simp only [step, hp, Option.some.injEq] at h
      exact ⟨c, rfl, h.symm⟩
  | _ => simp [step, hp] at h

/-- The flag is reset at the end of the body, and by init after a jump. -/
theorem of_step_clearFlag (h : s.step i .clearFlag = some t) :
    s.InSection i ∧ ∃ c, t = { s.goto i (.cleared c) with sig := s.sig.setFlag false } := by
  cases hp : s.pc i with
  | body c =>
      simp only [step, hp, Option.some.injEq] at h
      exact ⟨⟨c, .inr (.inl hp)⟩, c, h.symm⟩
  | landed c =>
      cases c with
      | init =>
          simp only [step, hp, Option.some.injEq] at h
          exact ⟨⟨.init, .inr (.inr ⟨hp, rfl⟩)⟩, .init, h.symm⟩
      | shrink => simp [step, hp] at h
  | _ => simp [step, hp] at h

theorem of_step_ret (h : s.step i .ret = some t) : t = s.goto i .outside := by
  cases hp : s.pc i with
  | cleared c =>
      simp only [step, hp, Option.some.injEq] at h
      exact h.symm
  | landed c =>
      cases c with
      | shrink =>
          simp only [step, hp, Option.some.injEq] at h
          exact h.symm
      | init => simp [step, hp] at h
  | _ => simp [step, hp] at h

theorem not_inSection_goto_outside : ¬ (s.goto i .outside).InSection i := by
  intro hin
  have hp : (s.goto i .outside).pc i = .outside := Function.update_self i _ _
  simp [InSection, hp] at hin

theorem exclusive_step {a : Action} (h : s.Exclusive) (hstep : s.step i a = some t)
    (hapart : Apart s (i, a) t) : t.Exclusive := by
  cases a with
  | register k =>
      simp only [step, Option.ite_none_right_eq_some, Option.some.injEq] at hstep
      rw [← hstep.2]
      exact h.congr rfl rfl rfl (handleSignal_flag k s.sig)
  | setFlag c =>
      simp only [step, Option.ite_none_right_eq_some, Option.some.injEq] at hstep
      rw [← hstep.2]
      apply exclusive_of_alone (s := s) (i := i) (p := .flagged c) rfl
      · exact hapart.1 ⟨c, rfl⟩
      · intro _ _
        rfl
      · simp
  | sigsetjmp =>
      rcases of_step_sigsetjmp hstep with ⟨c, hp, rfl⟩
      apply exclusive_of_alone (s := s) (i := i) (p := .body c) rfl
      · exact h.alone ⟨c, .inl hp⟩
      · intro _ _
        exact h.flag i c (.inl hp)
      · intro _ _
        rfl
  | clearFlag =>
      rcases of_step_clearFlag hstep with ⟨hin, c, rfl⟩
      apply exclusive_of_alone (s := s) (i := i) (p := .cleared c) rfl
      · exact h.alone hin
      · simp
      · simp
  | ret =>
      rw [of_step_ret hstep]
      exact h.leave rfl not_inSection_goto_outside rfl rfl rfl
  | fault =>
      by_cases hl : s.pc i = .lost
      · simp [step, hl] at hstep
      · simp only [step, hl, if_false, Option.some.injEq] at hstep
        rw [← hstep]
        exact exclusive_deliverTo h (hapart.2 rfl)

end

/-! ## Runs -/

omit [DecidableEq ι] in
theorem exclusive_outside {s : Threads ι} (h : ∀ i, s.pc i = .outside) : s.Exclusive := by
  constructor
  · intro i j hi hj
    simp [InSection, h i] at hi
  · intro i c hi
    simp [h i] at hi
  · intro i c hi
    simp [h i] at hi

/-- While the sections of different threads stay apart and only a guarded body raises a
SIGSEGV that jumps, every jump is into a live frame of its own thread and every body runs
with the flag set. -/
theorem jumpSafe_of_apart {s : Threads ι} {ls : List (ι × Action)}
    (hout : ∀ i, s.pc i = .outside) (h : (threads ι).Each Apart ls s) :
    (threads ι).Each JumpSafe ls s := by
  apply Machine.each_of_invariant _ (exclusive_outside hout) h
  intro s l t hs hstep hapart
  have ht := exclusive_step hs hstep hapart
  refine ⟨⟨?_, ht.bodiesFlagged⟩, ht⟩
  intro hfault hjumps
  rcases hapart.2 hfault hjumps with ⟨c, hb⟩
  exact hs.ownsBuffer hb

/-- One thread is in its guarded body when another thread raises a SIGSEGV: the jump goes
into the stack of the first. -/
theorem foreign_fault_jumps :
    ¬ (threads (Fin 2)).Each JumpSafe
      [(0, .setFlag .shrink), (0, .sigsetjmp), (1, .fault)]
      { sig := { sigsegv := .customSignalHandler } } := by
  intro h
  have h₁ := (h _ rfl).2
  have h₂ := (h₁ _ rfl).2
  rcases (h₂ _ rfl).1.1 rfl ⟨rfl, rfl⟩ with ⟨howner, -⟩
  exact absurd howner (by decide)

theorem jumpSafe_guarded_fault :
    (threads (Fin 2)).Each JumpSafe
      [(0, .setFlag .shrink), (0, .sigsetjmp), (0, .fault), (0, .ret)]
      { sig := { sigsegv := .customSignalHandler } } := by
  apply jumpSafe_of_apart fun _ => rfl
  intro s₁ h₁
  rw [← Option.some.inj h₁]
  refine ⟨⟨fun _ j _ hin => by simp [InSection] at hin, fun h => by simp at h⟩, ?_⟩
  intro s₂ h₂
  rw [← Option.some.inj h₂]
  refine ⟨⟨fun h => by simp at h, fun h => by simp at h⟩, ?_⟩
  intro s₃ h₃
  rw [← Option.some.inj h₃]
  refine ⟨⟨fun h => by simp at h, fun _ _ => ⟨.shrink, rfl⟩⟩, ?_⟩
  intro s₄ h₄
  exact ⟨⟨fun h => by simp at h, fun h => by simp at h⟩, trivial⟩

/-! ## The guarded section of one thread -/

/-- A guarded resize that returns is a run of its thread, with the same signal state at the
end: straight through the section when it answers `true`, and through a jump when it answers
`false`. -/
theorem shrinkProtected_run {lib : ArtLib} {φ : Site → Bool} {p q : Process} {s : Threads ι}
    {n : JInt} {r : Bool} (hl : Layout p.g) (hh : p.sig.sigsegv = .customSignalHandler) (i : ι)
    (hsig : s.sig = p.sig) (hpc : s.pc i = .outside)
    (hr : (shrinkProtected lib n).run φ p = .done r q) :
    ∃ t, (threads ι).exec
        (if r then [(i, .setFlag .shrink), (i, .sigsetjmp), (i, .clearFlag), (i, .ret)]
        else [(i, .setFlag .shrink), (i, .sigsetjmp), (i, .fault), (i, .ret)]) s = some t ∧
      t.sig = q.sig ∧ t.pc i = .outside := by
  have hq := (Prog.wp_done (wp_shrinkProtected hl n) hr).1
  cases r with
  | true =>
      refine ⟨_, by simp [threads, step, goto, hpc]; rfl, ?_, ?_⟩
      · rw [hq, ← hsig]
      · simp
  | false =>
      have hjump : deliver (s.sig.setFlag true) = .jump (s.sig.setFlag false) := by
        rw [hsig]
        exact deliver_setFlag hh
      refine ⟨_, by simp [threads, step, goto, hpc, deliverTo, longjmp, frame?, hjump]; rfl, ?_, ?_⟩
      · rw [hq, ← hsig]
      · simp

end Threads
end Patrons
