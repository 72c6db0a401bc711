import Patrons.Model.LogMemory

/-! # Who owns the lines

A buffer is freed when its slot takes another line. A clean forgets the first 32 slots and
frees nothing. -/

namespace Patrons

namespace LogMemory

/-- Every live buffer belongs to one slot, and only live buffers do; none was freed twice. -/
structure Owned (s : LogMemory) : Prop where
  referenced : ∀ p, (s.live p).isSome → ∃! i, s.dumpLogs i = p
  live : ∀ i, s.dumpLogs i ≠ 0 → (s.live (s.dumpLogs i)).isSome
  freed : s.badFree = false

/-- What holds in every run: no slot dangles and no two slots share a buffer. -/
structure Valid (s : LogMemory) : Prop where
  null : s.live 0 = none
  live : ∀ i, s.dumpLogs i ≠ 0 → (s.live (s.dumpLogs i)).isSome
  distinct : ∀ i j, s.dumpLogs i ≠ 0 → s.dumpLogs i = s.dumpLogs j → i = j
  freed : s.badFree = false

def Covered (s : LogMemory) : Prop := ∀ p, (s.live p).isSome → ∃ i, s.dumpLogs i = p

variable {s : LogMemory} {p : Addr} {line : CString}

theorem Valid.ne_zero (h : Valid s) (hlive : (s.live p).isSome) : p ≠ 0 := by
  rintro rfl
  rw [h.null] at hlive
  exact absurd hlive (by simp)

theorem Valid.owned (h : Valid s) (hcovered : Covered s) : Owned s where
  referenced p hlive := by
    obtain ⟨i, rfl⟩ := hcovered p hlive
    exact ⟨i, rfl, fun j hj => (h.distinct i j (h.ne_zero hlive) hj.symm).symm⟩
  live := h.live
  freed := h.freed

theorem Owned.covered (h : Owned s) : Covered s := fun p hlive => (h.referenced p hlive).exists

theorem valid_empty : Valid {} where
  null := rfl
  live _ h := absurd rfl h
  distinct _ _ h := absurd rfl h
  freed := rfl

theorem covered_empty : Covered {} := fun _ h => absurd h (by simp)

/-! ## Logging a line -/

@[simp] theorem dumpLogs_freeSlot (i : Fin 128) : (s.freeSlot i).dumpLogs = s.dumpLogs := by
  unfold freeSlot
  split <;> rfl

@[simp] theorem dumpCursor_freeSlot (i : Fin 128) : (s.freeSlot i).dumpCursor = s.dumpCursor := by
  unfold freeSlot
  split <;> rfl

theorem live_freeSlot (hnull : s.live 0 = none) (i : Fin 128) (q : Addr) :
    (s.freeSlot i).live q = if q = s.dumpLogs i then none else s.live q := by
  unfold freeSlot
  split
  · exact Function.update_apply _ _ _ _
  · rename_i hzero
    split
    · rename_i hq
      rw [hq, not_not.mp hzero, hnull]
    · rfl

theorem badFree_freeSlot {i : Fin 128}
    (hlive : s.dumpLogs i ≠ 0 → (s.live (s.dumpLogs i)).isSome) :
    (s.freeSlot i).badFree = s.badFree := by
  unfold freeSlot
  split
  · rename_i hne
    have hsome := hlive hne
    simp [free, Option.isNone_eq_false_iff.mpr hsome]
  · rfl

@[simp] theorem live_malloc_self : (s.malloc p line).live p = some line :=
  Function.update_self _ _ _

theorem live_malloc_of_ne {q : Addr} (h : q ≠ p) : (s.malloc p line).live q = s.live q :=
  Function.update_of_ne h _ _

@[simp] theorem dumpLogs_logDump :
    (s.logDump p line).dumpLogs = Function.update s.dumpLogs s.slot p := by
  simp only [logDump, setSlot, dumpLogs_freeSlot]
  rfl

@[simp] theorem dumpCursor_logDump : (s.logDump p line).dumpCursor = s.dumpCursor + 1 := by
  simp only [logDump, setSlot, dumpCursor_freeSlot]
  rfl

section LogDump

variable (h : Valid s) (hp : p ≠ 0) (hfresh : s.live p = none)

include h hfresh

theorem Valid.ne_fresh {i : Fin 128} (hi : s.dumpLogs i ≠ 0) : s.dumpLogs i ≠ p := by
  intro heq
  have hlive := h.live i hi
  rw [heq, hfresh] at hlive
  exact absurd hlive (by simp)

theorem badFree_logDump : (s.logDump p line).badFree = false := by
  have hold : s.dumpLogs s.slot ≠ 0 → ((s.malloc p line).live (s.dumpLogs s.slot)).isSome := by
    intro hne
    rw [live_malloc_of_ne (h.ne_fresh hfresh hne)]
    exact h.live _ hne
  have hkept : ((s.malloc p line).advance.freeSlot s.slot).badFree = s.badFree :=
    badFree_freeSlot hold
  exact hkept.trans h.freed

include hp

theorem live_logDump (q : Addr) :
    (s.logDump p line).live q =
      if q = p then some line else if q = s.dumpLogs s.slot then none else s.live q := by
  have hnull : (s.malloc p line).advance.live 0 = none :=
    (live_malloc_of_ne hp.symm).trans h.null
  have hlive : (s.logDump p line).live q =
      if q = s.dumpLogs s.slot then none else (s.malloc p line).live q :=
    live_freeSlot hnull s.slot q
  rw [hlive]
  by_cases hq : q = p
  · have hne : q ≠ s.dumpLogs s.slot := by
      intro heq
      have hold : s.dumpLogs s.slot ≠ 0 := by rwa [← heq, hq]
      exact h.ne_fresh hfresh hold (heq.symm.trans hq)
    rw [if_neg hne, if_pos hq, hq, live_malloc_self]
  · rw [if_neg hq, live_malloc_of_ne hq]

theorem live_logDump_of_ne {i : Fin 128} (hi : i ≠ s.slot) (hne : s.dumpLogs i ≠ 0) :
    (s.logDump p line).live (s.dumpLogs i) = s.live (s.dumpLogs i) := by
  rw [live_logDump h hp hfresh, if_neg (h.ne_fresh hfresh hne),
    if_neg fun heq => hi (h.distinct i s.slot hne heq)]

theorem valid_logDump : Valid (s.logDump p line) where
  null := by
    rw [live_logDump h hp hfresh, if_neg hp.symm, h.null]
    split <;> rfl
  live i hi := by
    rw [dumpLogs_logDump] at hi ⊢
    by_cases hslot : i = s.slot
    · rw [hslot, Function.update_self, live_logDump h hp hfresh, if_pos rfl]
      rfl
    · rw [Function.update_of_ne hslot] at hi ⊢
      rw [live_logDump_of_ne h hp hfresh hslot hi]
      exact h.live i hi
  distinct i j hi heq := by
    rw [dumpLogs_logDump] at hi heq
    by_cases hslot : i = s.slot
    · by_cases hslot' : j = s.slot
      · exact hslot.trans hslot'.symm
      · rw [hslot, Function.update_self, Function.update_of_ne hslot'] at heq
        exact absurd heq.symm (h.ne_fresh hfresh (heq ▸ hp))
    · rw [Function.update_of_ne hslot] at hi heq
      by_cases hslot' : j = s.slot
      · rw [hslot', Function.update_self] at heq
        exact absurd heq (h.ne_fresh hfresh hi)
      · rw [Function.update_of_ne hslot'] at heq
        exact h.distinct i j hi heq
  freed := badFree_logDump h hfresh

theorem covered_logDump (hcovered : Covered s) : Covered (s.logDump p line) := by
  intro q hq
  rw [live_logDump h hp hfresh] at hq
  rw [dumpLogs_logDump]
  by_cases hnew : q = p
  · exact ⟨s.slot, by rw [hnew, Function.update_self]⟩
  · rw [if_neg hnew] at hq
    split at hq
    · exact absurd hq (by simp)
    · rename_i hkept
      obtain ⟨i, hi⟩ := hcovered q hq
      have hslot : i ≠ s.slot := by
        rintro rfl
        exact hkept hi.symm
      exact ⟨i, by rw [Function.update_of_ne hslot, hi]⟩

end LogDump

/-! ## Cleaning -/

theorem dumpLogs_cleanLogBuffer (i : Fin 128) :
    s.cleanLogBuffer.dumpLogs i = if 4 * i.val < 128 then 0 else s.dumpLogs i := rfl

theorem valid_cleanLogBuffer (h : Valid s) : Valid s.cleanLogBuffer := by
  have hkept : ∀ i, s.cleanLogBuffer.dumpLogs i ≠ 0 →
      s.cleanLogBuffer.dumpLogs i = s.dumpLogs i := by
    intro i hi
    rw [dumpLogs_cleanLogBuffer] at hi ⊢
    split at hi
    · exact absurd rfl hi
    · rename_i hlast
      exact if_neg hlast
  refine ⟨h.null, fun i hi => ?_, fun i j hi heq => ?_, h.freed⟩
  · have hsame := hkept i hi
    rw [hsame] at hi ⊢
    exact h.live i hi
  · have hj : s.cleanLogBuffer.dumpLogs j ≠ 0 := heq ▸ hi
    rw [hkept i hi, hkept j hj] at heq
    exact h.distinct i j (hkept i hi ▸ hi) heq

/-- A clean leaks what the first 32 slots refer to. -/
theorem covered_cleanLogBuffer_iff (h : Valid s) (hcovered : Covered s) :
    Covered s.cleanLogBuffer ↔ ∀ i : Fin 128, 4 * i.val < 128 → s.dumpLogs i = 0 := by
  constructor
  · intro hclean i hi
    by_contra hne
    obtain ⟨j, hj⟩ := hclean (s.dumpLogs i) (h.live i hne)
    rw [dumpLogs_cleanLogBuffer] at hj
    split at hj
    · exact hne hj.symm
    · rename_i hlast
      have hij : i = j := h.distinct i j hne hj.symm
      exact hlast (hij ▸ hi)
  · intro hnull p hp
    obtain ⟨i, hi⟩ := hcovered p hp
    have hlast : ¬4 * i.val < 128 := by
      intro hfirst
      exact h.ne_zero hp (hi ▸ hnull i hfirst)
    exact ⟨i, by rw [dumpLogs_cleanLogBuffer, if_neg hlast, hi]⟩

end LogMemory

/-! ## A call -/

def MemoryCall.cleans (s : LogMemory) : MemoryCall → Bool
  | logDump _ _ => false
  | cleanLogBuffer => true
  | dumpLogs cleanAfterDump => s.dumpCursor != 0 && cleanAfterDump

/-- A call that cleans finds the slots that it clears `NULL` already. -/
def ClearsNothing (s : LogMemory) (c : MemoryCall) (_ : LogMemory) : Prop :=
  c.cleans s = true → ∀ i : Fin 128, 4 * i.val < 128 → s.dumpLogs i = 0

namespace LogMemory

variable {vsprintf : LogLine → CString} {s t : LogMemory} {c : MemoryCall}

/-- A call logs a line into a new buffer, or it cleans, or it changes nothing. -/
theorem logMemory_cases (h : (logMemory vsprintf).step s c = some t) :
    (∃ p line, c = .logDump p line ∧ p ≠ 0 ∧ s.live p = none ∧ t = s.logDump p (vsprintf line)) ∨
    (c.cleans s = true ∧ t = s.cleanLogBuffer) ∨
    (c.cleans s = false ∧ t = s) := by
  cases c with
  | logDump p line =>
      simp only [logMemory, Option.ite_none_right_eq_some, Option.some.injEq,
        Option.isNone_iff_eq_none] at h
      exact .inl ⟨p, line, rfl, h.1.1, h.1.2, h.2.symm⟩
  | cleanLogBuffer => exact .inr (.inl ⟨rfl, (Option.some.inj h).symm⟩)
  | dumpLogs clean =>
      have ht := (Option.some.inj h).symm
      unfold afterDump at ht
      split at ht
      · rename_i hclean
        exact .inr (.inl ⟨by simpa [MemoryCall.cleans] using hclean, ht⟩)
      · rename_i hkept
        refine .inr (.inr ⟨?_, ht⟩)
        rw [← Bool.not_eq_true]
        simpa [MemoryCall.cleans] using hkept

theorem valid_step (hs : Valid s) (h : (logMemory vsprintf).step s c = some t) : Valid t := by
  rcases logMemory_cases h with ⟨p, line, -, hp, hfresh, rfl⟩ | ⟨-, rfl⟩ | ⟨-, rfl⟩
  · exact valid_logDump hs hp hfresh
  · exact valid_cleanLogBuffer hs
  · exact hs

/-- From a state without leaks a call leaks exactly when it clears a slot in use. -/
theorem covered_step_iff (hs : Valid s) (hcovered : Covered s)
    (h : (logMemory vsprintf).step s c = some t) : Covered t ↔ ClearsNothing s c t := by
  rcases logMemory_cases h with ⟨p, line, rfl, hp, hfresh, rfl⟩ | ⟨hclean, rfl⟩ | ⟨hkept, rfl⟩
  · have hnone : ClearsNothing s (.logDump p line) (s.logDump p (vsprintf line)) := by
      intro hclean
      exact absurd hclean (by simp [MemoryCall.cleans])
    exact iff_of_true (covered_logDump hs hp hfresh hcovered) hnone
  · rw [covered_cleanLogBuffer_iff hs hcovered, ClearsNothing, hclean]
    simp
  · refine iff_of_true hcovered ?_
    intro hclean
    rw [hkept] at hclean
    exact absurd hclean (by simp)

theorem owned_step_iff (hs : Valid s) (hcovered : Covered s)
    (h : (logMemory vsprintf).step s c = some t) : Owned t ↔ ClearsNothing s c t := by
  rw [← covered_step_iff hs hcovered h]
  exact ⟨Owned.covered, (valid_step hs h).owned⟩

/-! ## Runs -/

/-- In every run no slot dangles, no two slots share a buffer and none is freed twice. -/
theorem valid_run {cs : List MemoryCall} (h : (logMemory vsprintf).exec cs {} = some t) : Valid t :=
  Machine.exec_invariant (fun _ _ _ hs hstep => valid_step hs hstep) valid_empty h

/-- In every sequence of calls the slots own the live buffers after each of them exactly when
every clean finds the first 32 slots `NULL`. -/
theorem owned_iff (vsprintf : LogLine → CString) (cs : List MemoryCall) :
    (logMemory vsprintf).Each (fun _ _ t => Owned t) cs {} ↔
      (logMemory vsprintf).Each ClearsNothing cs {} := by
  apply Machine.each_congr (I := fun s => Valid s ∧ Covered s) _ _ ⟨valid_empty, covered_empty⟩
  · intro s c t hs hstep
    exact owned_step_iff hs.1 hs.2 hstep
  · intro s c t hs hstep howned
    exact ⟨valid_step hs.1 hstep, howned.covered⟩

def emptyLines : Machine LogMemory MemoryCall := logMemory fun _ => ⟨[], by simp⟩

/-- One line is logged, and a clean forgets its buffer. -/
theorem clean_leaks :
    ∃ s, emptyLines.exec [.logDump 0x1000 ⟨"register signal handler", []⟩, .cleanLogBuffer] {} =
        some s ∧
      (s.live 0x1000).isSome ∧ (∀ i, s.dumpLogs i ≠ 0x1000) ∧
      ¬emptyLines.Each (fun _ _ t => Owned t)
        [.logDump 0x1000 ⟨"register signal handler", []⟩, .cleanLogBuffer] {} := by
  refine ⟨_, rfl, by decide +kernel, by decide +kernel, ?_⟩
  intro h
  obtain ⟨-, hrest⟩ := h _ rfl
  obtain ⟨howned, -⟩ := hrest _ rfl
  obtain ⟨i, hi, -⟩ := howned.referenced 0x1000 (by decide +kernel)
  exact absurd hi (by revert i; decide +kernel)

end LogMemory
end Patrons
