import Mathlib.Data.List.Induction
import Patrons.Verification.Hook.Threads

/-! # Refreshes one after the other

Threads that refresh at the same time leave the tree and memory as refreshes that follow each other
do. Where hooks are registered before the first refresh, all of them use the same hooks. -/

namespace Patrons.Xhook

open Interleave

variable {ι π : Type*}

/-! ## Refreshes in order -/

def scanSeen (maps : Maps π) (d : List MapInfo × Vm π) (seen : List (MapsLine × List HookInfo)) :
    Maps.Scan π :=
  seen.foldl (fun scan e => maps.scanLine e.2 scan e.1) ⟨d.1, [], d.2⟩

@[simp] theorem scanSeen_nil (maps : Maps π) (d : List MapInfo × Vm π) :
    scanSeen maps d [] = ⟨d.1, [], d.2⟩ := rfl

@[simp] theorem scanSeen_append (maps : Maps π) (d : List MapInfo × Vm π)
    (seen : List (MapsLine × List HookInfo)) (e : MapsLine × List HookInfo) :
    scanSeen maps d (seen ++ [e]) = maps.scanLine e.2 (scanSeen maps d seen) e.1 := by
  simp [scanSeen]

/-- The tree and memory after a refresh that nothing interrupts. -/
def replayOne (maps : Maps π) (d : List MapInfo × Vm π) :
    Option (List (MapsLine × List HookInfo)) → List MapInfo × Vm π
  | none => d
  | some seen => ((scanSeen maps d seen).refreshed, (scanSeen maps d seen).vm)

/-- Refreshes one after the other. -/
def replay (maps : ℕ → Maps π) (vm : Vm π) (es : List (Option (List (MapsLine × List HookInfo)))) :
    List MapInfo × Vm π :=
  es.zipIdx.foldl (fun d e => replayOne (maps e.2) d e.1) ([], vm)

@[simp] theorem replay_append (maps : ℕ → Maps π) (vm : Vm π)
    (es : List (Option (List (MapsLine × List HookInfo)))) (e) :
    replay maps vm (es ++ [e]) = replayOne (maps es.length) (replay maps vm es) e := by
  simp [replay, List.zipIdx_append]

/-- The refresh under way, as far as it has come. -/
def CoreShared.scanned (s : CoreShared ι π) (maps : ℕ → Maps π) (vm : Vm π) : Maps.Scan π :=
  scanSeen (maps s.ended.length) (replay maps vm s.ended) s.seen

/-- The tree and memory are those of the refreshes that have ended and of the one under way. -/
structure Replayed (maps : ℕ → Maps π) (vm : Vm π) (s : CoreShared ι π) : Prop where
  tree : s.hooks.core.mapInfo = (s.scanned maps vm).old
  mem : s.hooks.vm = (s.scanned maps vm).vm
  whole : ∀ n seen, s.ended[n]? = some (some seen) → seen.map Prod.fst = (maps n).lines
  idle : s.refreshMutex = none → s.seen = []

/-- What the thread in the refresh has read. -/
def Reading (maps : ℕ → Maps π) (vm : Vm π) (_ : Tid ι) (s : CoreShared ι π) : CorePc → Prop
  | .refresh | .refreshUnlock => s.seen = []
  | .refreshing refreshed lines =>
    refreshed = (s.scanned maps vm).refreshed ∧
      s.seen.map Prod.fst ++ lines = (maps s.ended.length).lines
  | _ => True

variable [DecidableEq ι] {maps : ℕ → Maps π} {vm : Vm π} {t u : Tid ι} {act : CoreAct}
  {s s' : CoreShared ι π} {p p' : CorePc}

omit [DecidableEq ι] in
theorem scan_eq (hI : Replayed maps vm s) {refreshed : List MapInfo}
    (hrefreshed : refreshed = (s.scanned maps vm).refreshed) (line : MapsLine) :
    s.scan (maps s.ended.length) refreshed line =
      (s.afterLine (maps s.ended.length) refreshed line).scanned maps vm := by
  have hscan : (⟨s.hooks.core.mapInfo, refreshed, s.hooks.vm⟩ : Maps.Scan π) =
      s.scanned maps vm := by
    rw [hI.tree, hI.mem, hrefreshed]
  rw [CoreShared.scan, hscan]
  simp [CoreShared.scanned, CoreShared.afterLine]

omit [DecidableEq ι] in
theorem replayed_afterLine (hI : Replayed maps vm s) {refreshed : List MapInfo}
    {line : MapsLine} {lines : List MapsLine}
    (hA : Reading maps vm t s (.refreshing refreshed (line :: lines)))
    (hlock : s.refreshMutex ≠ none) :
    Replayed maps vm (s.afterLine (maps s.ended.length) refreshed line) ∧
      Reading maps vm t (s.afterLine (maps s.ended.length) refreshed line)
        (.refreshing (s.scan (maps s.ended.length) refreshed line).refreshed lines) := by
  obtain ⟨hrefreshed, hlines⟩ := hA
  have hscan := scan_eq hI hrefreshed line
  refine ⟨⟨?_, ?_, hI.whole, fun hnone => absurd hnone hlock⟩, ?_, ?_⟩
  · rw [← hscan]
    rfl
  · rw [← hscan]
    rfl
  · rw [hscan]
  · refine Eq.trans ?_ hlines
    simp [CoreShared.afterLine]

omit [DecidableEq ι] in
theorem replayed_endRefresh (hI : Replayed maps vm s) {refreshed : List MapInfo}
    (hA : Reading maps vm t s (.refreshing refreshed [])) :
    Replayed maps vm (s.endRefresh refreshed) := by
  obtain ⟨hrefreshed, hlines⟩ := hA
  have hlast : (s.endRefresh refreshed).scanned maps vm =
      ⟨refreshed, [], s.hooks.vm⟩ := by
    rw [hrefreshed, hI.mem]
    simp [CoreShared.scanned, CoreShared.endRefresh, replayOne]
  refine ⟨by rw [hlast]; rfl, by rw [hlast]; rfl, ?_, fun _ => rfl⟩
  intro n seen hn
  rw [CoreShared.endRefresh, List.getElem?_append] at hn
  split at hn
  · exact hI.whole n seen hn
  · next hlt =>
      obtain ⟨hn, rfl⟩ : n - s.ended.length = 0 ∧ s.seen = seen := by
        rw [List.getElem?_singleton] at hn
        split at hn
        · next h => exact ⟨h, by simpa using hn⟩
        · simp at hn
      obtain rfl : n = s.ended.length := by omega
      simpa using hlines

omit [DecidableEq ι] in
theorem replayed_failed (hI : Replayed maps vm s) (hseen : s.seen = []) (begun : ℕ) :
    Replayed maps vm { s with begun := begun, ended := s.ended ++ [none] } := by
  obtain ⟨htree, hmem, hwhole, -⟩ := hI
  simp only [CoreShared.scanned, hseen, scanSeen_nil] at htree hmem
  refine ⟨?_, ?_, ?_, fun _ => hseen⟩
  · simp [CoreShared.scanned, hseen, htree, replayOne]
  · simp [CoreShared.scanned, hseen, hmem, replayOne]
  · intro n seen hn
    rw [List.getElem?_append] at hn
    split at hn
    · exact hwhole n seen hn
    · rw [List.getElem?_singleton] at hn
      split at hn <;> simp at hn

omit [DecidableEq ι] in
/-- Without a step of the refresh nothing that it reads changes. -/
theorem replayed_congr (hmap : s'.hooks.core.mapInfo = s.hooks.core.mapInfo)
    (hvm : s'.hooks.vm = s.hooks.vm) (hseen : s'.seen = s.seen) (hended : s'.ended = s.ended)
    (hidle : s'.refreshMutex = none → s'.seen = []) (hI : Replayed maps vm s) :
    Replayed maps vm s' := by
  have hscan : s'.scanned maps vm = s.scanned maps vm := by
    simp [CoreShared.scanned, hseen, hended]
  exact ⟨by rw [hmap, hscan, hI.tree], by rw [hvm, hscan, hI.mem], by rw [hended]; exact hI.whole,
    hidle⟩

omit [DecidableEq ι] in
theorem reading_congr (hseen : s'.seen = s.seen) (hended : s'.ended = s.ended)
    (hA : Reading maps vm t s p) : Reading maps vm t s' p := by
  have hscan : s'.scanned maps vm = s.scanned maps vm := by
    simp [CoreShared.scanned, hseen, hended]
  cases p <;> simp_all [Reading]

/-- Where the lock of refreshes is taken and let go. -/
theorem refreshMutex_step (h : coreStep maps t act s p = some (s', p'))
    (hp : p.holdsRefresh = false) :
    (s'.refreshMutex = s.refreshMutex ∧ p'.holdsRefresh = false) ∨
      (s.refreshMutex = none ∧ s'.refreshMutex = some t ∧ p' = .refresh) := by
  rcases coreStep_cases h with hgo | ⟨rfl, _, _, -, -, ⟨_, rfl⟩ | ⟨_, rfl⟩⟩ | ⟨-, rfl, rfl⟩
  · cases hgo with
    | test h => exact Or.inl ⟨rfl, h.sections.2.2⟩
    | acquire _ h => exact Or.inl ⟨rfl, h.sections.2.2.2⟩
    | release h => exact Or.inl ⟨rfl, h.sections.2.2.2⟩
    | sleep => exact Or.inl ⟨rfl, rfl⟩
    | write h => exact Or.inl ⟨h.kept.2.1, h.sections.2.2.2⟩
    | refresh h =>
        cases h with
        | lock hfree => exact Or.inr ⟨hfree, rfl, rfl⟩
        | _ => simp [CorePc.holdsRefresh] at hp
  · exact Or.inl ⟨rfl, rfl⟩
  · exact Or.inl ⟨rfl, rfl⟩
  · exact Or.inl ⟨rfl, rfl⟩

omit [DecidableEq ι] in
theorem reading_of_outside (hp : p.holdsRefresh = false) : Reading maps vm t s p := by
  cases p <;> simp_all [Reading, CorePc.holdsRefresh]

omit [DecidableEq ι] in
theorem Refreshes.replayed (hP : Placed t s p) (hI : Replayed maps vm s)
    (hA : Reading maps vm t s p) (hp : p.holdsRefresh = true)
    (h : Refreshes maps t s p s' p') : Replayed maps vm s' ∧ Reading maps vm t s' p' := by
  have hlock : s.refreshMutex ≠ none := by simp [hP.refreshMutex.mp hp]
  cases h with
  | lock => simp [CorePc.holdsRefresh] at hp
  | opened =>
      refine ⟨replayed_congr (s := s) rfl rfl rfl rfl (fun _ => hA) hI, ?_⟩
      simp [Reading, CoreShared.scanned, show s.seen = [] from hA]
  | notOpened => exact ⟨replayed_failed hI hA _, hA⟩
  | line => exact replayed_afterLine hI hA hlock
  | done => exact ⟨replayed_endRefresh hI hA, rfl⟩
  | unlock =>
      refine ⟨replayed_congr (s := s) rfl rfl rfl rfl (fun _ => hA) hI, ?_⟩
      exact reading_of_outside (by cases t <;> rfl)

theorem replayed_own (hP : Placed t s p) (hI : Replayed maps vm s) (hA : Reading maps vm t s p)
    (h : coreStep maps t act s p = some (s', p')) :
    Replayed maps vm s' ∧ Reading maps vm t s' p' := by
  by_cases hp : p.holdsRefresh = true
  · rcases coreStep_cases h with hgo | ⟨-, i, code, -, rfl, -⟩ | ⟨rfl, -⟩
    · cases hgo with
      | test h => simp [h.sections.2.1] at hp
      | acquire _ h => simp [h.sections.2.2.1] at hp
      | release h => simp [h.sections.2.2.1] at hp
      | sleep => simp [CorePc.holdsRefresh] at hp
      | write h => simp [h.sections.2.2.1] at hp
      | refresh h => exact h.replayed hP hI hA hp
    · simp [CorePc.holdsRefresh] at hp
    · simp [CorePc.holdsRefresh] at hp
  · obtain ⟨hmap, hvm, hseen, hended⟩ := tree_step h (by simpa using hp)
    rcases refreshMutex_step h (by simpa using hp) with ⟨hlock, hp'⟩ | ⟨hnone, hlock, rfl⟩
    · refine ⟨replayed_congr hmap hvm hseen hended ?_ hI, reading_of_outside hp'⟩
      rw [hlock, hseen]
      exact hI.idle
    · refine ⟨replayed_congr hmap hvm hseen hended (by simp [hlock]) hI, ?_⟩
      exact hseen.trans (hI.idle hnone)

theorem replayed_added (vm : Vm π) :
    Adds (coreStep (ι := ι) maps) (fun _ => True) Placed (Replayed maps vm) (Reading maps vm) where
  own := fun _ hP hI hA hstep => replayed_own hP hI hA hstep
  others := by
    intro t act s p s' p' u q hu _ hP hQ _ _ hB hstep
    by_cases hq : q.holdsRefresh = true
    · have hp : p.holdsRefresh = false := by
        by_contra hp
        exact hu (eq_of_owns hQ.refreshMutex hP.refreshMutex hq (by simpa using hp))
      obtain ⟨-, -, hseen, hended⟩ := tree_step hstep hp
      exact reading_congr hseen hended hB
    · exact reading_of_outside (by simpa using hq)

section Runs

variable {ls : List (Tid ι × CoreAct)} {x y : CoreState ι π}

theorem replayed_of_exec (hx : (coreThreads ι maps).exec ls (coreStart vm) = some x) :
    Replayed maps vm x.shared ∧ ∀ t, Placed t x.shared (x.pc t) := by
  have hstart : Holds (fun s => True ∧ Replayed maps vm s)
      (fun t s p => Placed t s p ∧ Reading maps vm t s p) (coreStart vm : CoreState ι π) := by
    refine ⟨⟨trivial, rfl, rfl, by simp [coreStart], fun _ => rfl⟩,
      fun t => ⟨coreStart_placed vm t, ?_⟩⟩
    cases t <;> trivial
  obtain ⟨hI, hA⟩ := (placed_kept.and (replayed_added vm)).holds_exec hstart hx
  exact ⟨hI.2, fun t => (hA t).1⟩

omit [DecidableEq ι] in
theorem replay_of_free (hI : Replayed maps vm x.shared) (hP : ∀ t, Placed t x.shared (x.pc t))
    (hfree : ∀ t, (x.pc t).holdsRefresh = false) :
    (x.shared.hooks.core.mapInfo, x.shared.hooks.vm) = replay maps vm x.shared.ended := by
  have hlock : x.shared.refreshMutex = none := by
    rw [Option.eq_none_iff_forall_ne_some]
    intro t ht
    have hin := (hP t).refreshMutex.mpr ht
    simp [hfree t] at hin
  rw [hI.tree, hI.mem, CoreShared.scanned, hI.idle hlock]
  rfl

/-- At most one thread is in a refresh. Between refreshes the tree and memory are what the
refreshes leave, in the order in which they end; each of them has read every line. -/
theorem refreshes_serial (hx : (coreThreads ι maps).exec ls (coreStart vm) = some x) :
    (∀ t u, (x.pc t).holdsRefresh = true → (x.pc u).holdsRefresh = true → t = u) ∧
      (∀ n seen, x.shared.ended[n]? = some (some seen) → seen.map Prod.fst = (maps n).lines) ∧
      ((∀ t, (x.pc t).holdsRefresh = false) →
        (x.shared.hooks.core.mapInfo, x.shared.hooks.vm) = replay maps vm x.shared.ended) := by
  obtain ⟨hI, hP⟩ := replayed_of_exec hx
  refine ⟨fun t u ht hu => ?_, hI.whole, replay_of_free hI hP⟩
  exact eq_of_owns (hP t).refreshMutex (hP u).refreshMutex ht hu

omit [DecidableEq ι] in
theorem free_of_quiet [DecidableEq ι] (h : Quiet maps x) (t : Tid ι) :
    (x.pc t).holdsRefresh = false := by
  by_contra hin
  exact go_of_holds maps t x.shared (Or.inr (by simpa using hin)) (h t true)

theorem refreshes_serial_raced : ∃ x, raced = some x ∧
    (x.shared.hooks.core.mapInfo, x.shared.hooks.vm) =
      replay growing ⟨memoryOf [], 1⟩ x.shared.ended := by
  obtain ⟨x, hx, -, -, hquiet⟩ := exists_raced
  obtain ⟨-, -, hreplay⟩ := refreshes_serial hx
  exact ⟨x, hx, hreplay (free_of_quiet hquiet)⟩

end Runs

/-! ## Hooks that are registered before -/

namespace CorePc

def registering : CorePc → Bool
  | registerRegcomp _ | registerMalloc _ | registerStrdup _ | registerLock _ => true
  | registerInsert _ => true
  | _ => false

def asking : CorePc → Bool
  | registerTest _ => true
  | p => p.registering

def initialised : CorePc → Bool
  | returned _ | registerTest _ | registerRegcomp _ | registerMalloc _ | registerStrdup _ => false
  | registerLock _ | registerInsert _ | registerUnlock => false
  | initTest _ | initLock _ | initAgain _ | initSet _ | absent => false
  | _ => true

end CorePc

/-- Before the first initialisation there is no refresh and no refresh thread. -/
structure Initial (s : CoreShared ι π) : Prop where
  created : s.hooks.core.inited = false → s.created = 0
  seen : s.hooks.core.inited = false → s.seen = []
  ended : s.hooks.core.inited = false → s.ended = []

/-- The refreshes used the hooks that are registered now. -/
structure Uses (s : CoreShared ι π) : Prop where
  seen : ∀ e ∈ s.seen, e.2 = s.hooks.core.hookInfo
  ended : ∀ seen, some seen ∈ s.ended → ∀ e ∈ seen, e.2 = s.hooks.core.hookInfo

omit [DecidableEq ι] in
theorem Tests.initialised (hI : Initial s) (hA : p.initialised = true → s.hooks.core.inited = true)
    (h : Tests t s p p') (hp' : p'.initialised = true) : s.hooks.core.inited = true := by
  cases h with
  | inited h | initedAgain h => exact h
  | begins h =>
      by_contra hnot
      have hzero := hI.created (by simpa using hnot)
      cases t <;> simp [CoreShared.hasThread, hzero] at h
  | closed | openRegistry | regcomp | noRegcomp | malloc | noMalloc | strdup | noStrdup =>
      simp [CorePc.initialised] at hp'
  | notInited | notInitedAgain | notOk | notAsyncOk => simp [CorePc.initialised] at hp'
  | _ => exact hA rfl

theorem initialised_go (hI : Initial s) (hA : p.initialised = true → s.hooks.core.inited = true)
    (h : GoStep maps t s p s' p') :
    Initial s' ∧ (p'.initialised = true → s'.hooks.core.inited = true) ∧
      (s.hooks.core.inited = true → s'.hooks.core.inited = true) := by
  cases h with
  | test h => exact ⟨hI, h.initialised hI hA, id⟩
  | acquire _ h =>
      refine ⟨{ hI with }, ?_, id⟩
      cases h <;> exact hA
  | release h =>
      refine ⟨{ hI with }, ?_, id⟩
      cases h <;> first | exact fun _ => hA rfl | simp [CorePc.initialised]
  | sleep => exact ⟨{ hI with }, fun _ => hA rfl, id⟩
  | write h =>
      cases h with
      | insert => exact ⟨{ hI with }, by simp [CorePc.initialised], id⟩
      | inited => exact ⟨⟨nofun, nofun, nofun⟩, fun _ => rfl, fun _ => rfl⟩
      | created =>
          have hinited := hA rfl
          refine ⟨{ hI with created := fun hnot => ?_ }, fun _ => hinited, id⟩
          simp [hinited] at hnot
      | _ => exact ⟨{ hI with }, fun _ => hA rfl, id⟩
  | refresh h =>
      have hinited : s.hooks.core.inited = true := hA (by cases h <;> rfl)
      have hsame : s'.hooks.core.inited = s.hooks.core.inited := congrArg (·.inited) h.guarded.1
      refine ⟨⟨?_, ?_, ?_⟩, fun _ => hsame.trans hinited, fun _ => hsame.trans hinited⟩ <;>
        exact fun hnot => by simp [hsame, hinited] at hnot

theorem initialised_step (hI : Initial s) (hA : p.initialised = true → s.hooks.core.inited = true)
    (h : coreStep maps t act s p = some (s', p')) :
    Initial s' ∧ (p'.initialised = true → s'.hooks.core.inited = true) ∧
      (s.hooks.core.inited = true → s'.hooks.core.inited = true) := by
  rcases coreStep_cases h with hgo | ⟨rfl, _, _, -, rfl, ⟨_, rfl⟩ | ⟨_, rfl⟩⟩ | ⟨rfl, rfl, rfl⟩
  · exact initialised_go hI hA hgo
  · exact ⟨hI, by simp [CorePc.initialised], id⟩
  · exact ⟨hI, by simp [CorePc.initialised], id⟩
  · exact ⟨{ hI with }, fun _ => hA rfl, id⟩

omit [DecidableEq ι] in
theorem Refreshes.uses (hU : Uses s) (h : Refreshes maps t s p s' p') : Uses s' := by
  cases h with
  | notOpened =>
      exact { hU with
        ended := fun seen hseen => hU.ended seen (by simpa using hseen) }
  | line =>
      exact { hU with
        seen := fun e he => by
          rcases List.mem_append.mp he with he | he
          · exact hU.seen e he
          · rw [List.mem_singleton.mp he]
            rfl }
  | done =>
      exact {
        seen := by simp [CoreShared.endRefresh]
        ended := fun seen hseen => by
          rcases List.mem_append.mp hseen with hseen | hseen
          · exact hU.ended seen hseen
          · obtain rfl := Option.some.inj (List.mem_singleton.mp hseen)
            exact hU.seen }
  | _ => exact { hU with }

/-- After the initialisation hooks stay as they are, and refreshes use them. -/
theorem uses_step (hinited : s.hooks.core.inited = true) (hp : p.registering = false)
    (hU : Uses s) (h : coreStep maps t act s p = some (s', p')) :
    Uses s' ∧ p'.registering = false := by
  rcases coreStep_cases h with hgo | ⟨rfl, _, _, -, rfl, ⟨_, rfl⟩ | ⟨_, rfl⟩⟩ | ⟨rfl, rfl, rfl⟩
  · cases hgo with
    | test h =>
        refine ⟨hU, ?_⟩
        cases h with
        | openRegistry hopen => simp [hinited] at hopen
        | regcomp | malloc | strdup => simp [CorePc.registering] at hp
        | _ => rfl
    | acquire _ h =>
        refine ⟨{ hU with }, ?_⟩
        cases h with
        | register => simp [CorePc.registering] at hp
        | _ => rfl
    | release h => exact ⟨{ hU with }, by cases h <;> rfl⟩
    | sleep => exact ⟨{ hU with }, rfl⟩
    | write h =>
        cases h with
        | insert => simp [CorePc.registering] at hp
        | _ => exact ⟨{ hU with }, rfl⟩
    | refresh h =>
        refine ⟨h.uses hU, ?_⟩
        cases h with
        | unlock => cases t <;> rfl
        | _ => rfl
  · exact ⟨hU, rfl⟩
  · exact ⟨hU, rfl⟩
  · exact ⟨{ hU with }, rfl⟩

theorem inited_step (hnot : s.hooks.core.inited = false) (hinited : s'.hooks.core.inited = true)
    (h : coreStep maps t act s p = some (s', p')) :
    p'.registering = false ∧ s'.seen = s.seen ∧ s'.ended = s.ended := by
  have hchanged : s'.guarded ≠ s.guarded := fun hsame => by
    have := congrArg (·.inited) hsame
    simp_all [CoreShared.guarded]
  rcases coreStep_cases h with hgo | ⟨rfl, -⟩ | ⟨-, -, rfl⟩
  · cases hgo with
    | write h =>
        cases h with
        | inited => exact ⟨rfl, rfl, rfl⟩
        | _ => simp_all [CoreShared.setCore]
    | refresh h => exact absurd h.guarded.1 hchanged
    | _ => exact absurd rfl hchanged
  · exact absurd rfl hchanged
  · exact absurd rfl hchanged

theorem initialised_added :
    Adds (coreStep (ι := ι) maps) (fun _ => True) Placed Initial
      fun _ s p => p.initialised = true → s.hooks.core.inited = true where
  own := by
    intro t act s p s' p' _ _ hI hA hstep
    obtain ⟨hI', hA', -⟩ := initialised_step hI hA hstep
    exact ⟨hI', hA'⟩
  others := by
    intro t act s p s' p' u q _ _ _ _ hI hA hB hstep hq
    obtain ⟨-, -, hkeep⟩ := initialised_step hI hA hstep
    exact hkeep (hB hq)

def refreshAll (maps : ℕ → Maps π) (opened : List Bool) (s : Hooks π) : Hooks π :=
  opened.zipIdx.foldl (fun s e => xhCoreRefreshImpl (maps e.2) e.1 s) s

@[simp] theorem refreshAll_append (maps : ℕ → Maps π) (opened : List Bool) (b : Bool)
    (s : Hooks π) :
    refreshAll maps (opened ++ [b]) s =
      xhCoreRefreshImpl (maps opened.length) b (refreshAll maps opened s) := by
  simp [refreshAll, List.zipIdx_append]

theorem scanSeen_eq {maps : Maps π} {hooks : List HookInfo}
    {seen : List (MapsLine × List HookInfo)} (hseen : ∀ e ∈ seen, e.2 = hooks)
    (d : List MapInfo × Vm π) :
    scanSeen maps d seen =
      (seen.map Prod.fst).foldl (maps.scanLine hooks) ⟨d.1, [], d.2⟩ := by
  rw [scanSeen, List.foldl_map]
  refine List.foldl_ext _ _ _ fun scan e he => ?_
  rw [hseen e he]

/-- With the same hooks at each line it is `xh_core_refresh_impl`. -/
theorem replayOne_eq {maps : Maps π} {core : Core} (d : List MapInfo × Vm π)
    {e : Option (List (MapsLine × List HookInfo))}
    (he : ∀ seen, e = some seen →
      seen.map Prod.fst = maps.lines ∧ ∀ r ∈ seen, r.2 = core.hookInfo) :
    xhCoreRefreshImpl maps e.isSome ⟨{ core with mapInfo := d.1 }, d.2⟩ =
      ⟨{ core with mapInfo := (replayOne maps d e).1 }, (replayOne maps d e).2⟩ := by
  cases e with
  | none => rfl
  | some seen =>
      obtain ⟨hlines, hhooks⟩ := he seen rfl
      simp [xhCoreRefreshImpl, replayOne, scanSeen_eq hhooks, hlines]

theorem replay_eq {maps : ℕ → Maps π} {core : Core}
    {es : List (Option (List (MapsLine × List HookInfo)))}
    (hwhole : ∀ n seen, es[n]? = some (some seen) → seen.map Prod.fst = (maps n).lines)
    (hhooks : ∀ seen, some seen ∈ es → ∀ r ∈ seen, r.2 = core.hookInfo) (vm : Vm π) :
    refreshAll maps (es.map Option.isSome) ⟨{ core with mapInfo := [] }, vm⟩ =
      ⟨{ core with mapInfo := (replay maps vm es).1 }, (replay maps vm es).2⟩ := by
  induction es using List.reverseRecOn with
  | nil => rfl
  | append_singleton es e ih =>
      have hbefore := ih (fun n seen hn => hwhole n seen (by
        rw [List.getElem?_append_left (List.getElem?_eq_some_iff.mp hn).1, hn]))
        fun seen hseen => hhooks seen (List.mem_append_left _ hseen)
      rw [List.map_append, List.map_singleton, refreshAll_append, hbefore, List.length_map,
        replay_append]
      refine replayOne_eq _ fun seen hseen => ⟨hwhole es.length seen (by simp [hseen]), ?_⟩
      exact hhooks seen (by simp [hseen])

section Runs

variable {ls : List (Tid ι × CoreAct)} {x y : CoreState ι π}

/-- When `xh_core_inited` is set, no `xh_core_register` has passed its test of it without having
inserted its hook. -/
def InOrder (x : CoreState ι π) (_ : Tid ι × CoreAct) (y : CoreState ι π) : Prop :=
  x.shared.hooks.core.inited = false → y.shared.hooks.core.inited = true →
    ∀ t, (x.pc t).registering = false

/-- From the initialisation on hooks stay as they are. -/
def Settled (x : CoreState ι π) : Prop :=
  x.shared.hooks.core.inited = true → Uses x.shared ∧ ∀ t, (x.pc t).registering = false

omit [DecidableEq ι] in
theorem uses_of_initial (hI : Initial s) (hnot : s.hooks.core.inited = false) : Uses s := by
  constructor
  · simp [hI.seen hnot]
  · simp [hI.ended hnot]

theorem settled_step {l : Tid ι × CoreAct} (hI : Initial x.shared) (hx : Settled x)
    (hy : (coreThreads ι maps).step x l = some y)
    (horder : InOrder x l y) : Settled y := by
  obtain ⟨⟨s', p'⟩, hstep, rfl⟩ := Option.map_eq_some_iff.mp hy
  intro hinited
  simp only at hinited ⊢
  by_cases hbefore : x.shared.hooks.core.inited = true
  · obtain ⟨hU, hreg⟩ := hx hbefore
    obtain ⟨hU', hreg'⟩ := uses_step hbefore (hreg l.1) hU hstep
    refine ⟨hU', fun u => ?_⟩
    by_cases hu : u = l.1
    · rw [hu, Function.update_self]
      exact hreg'
    · rw [Function.update_of_ne hu]
      exact hreg u
  · have hnot := Bool.eq_false_iff.mpr hbefore
    obtain ⟨hreg', hseen, hended⟩ := inited_step hnot hinited hstep
    refine ⟨⟨by simp [hseen, hI.seen hnot], by simp [hended, hI.ended hnot]⟩, fun u => ?_⟩
    by_cases hu : u = l.1
    · rw [hu, Function.update_self]
      exact hreg'
    · rw [Function.update_of_ne hu]
      exact horder hnot hinited u

/-- What every state of such a run meets. -/
structure Ordered (x : CoreState ι π) : Prop where
  held : Holds (fun s => True ∧ Initial s)
    (fun t s p => Placed t s p ∧ (p.initialised = true → s.hooks.core.inited = true)) x
  settled : Settled x

omit [DecidableEq ι] in
theorem coreStart_ordered (vm : Vm π) : Ordered (coreStart vm : CoreState ι π) where
  held := by
    refine ⟨⟨trivial, fun _ => rfl, fun _ => rfl, fun _ => rfl⟩,
      fun t => ⟨coreStart_placed vm t, ?_⟩⟩
    cases t <;> simp [coreStart, CorePc.initialised]
  settled := by simp [Settled, coreStart]

theorem ordered_step {l : Tid ι × CoreAct} (hx : Ordered x)
    (hy : (coreThreads ι maps).step x l = some y) (horder : InOrder x l y) : Ordered y where
  held := by
    have hadded : Adds (coreStep (ι := ι) maps) _ _ _ _ := initialised_added
    exact (placed_kept.and hadded).holds_step hx.held hy
  settled := settled_step hx.held.1.2 hx.settled hy horder

theorem uses_of_exec (hx : (coreThreads ι maps).exec ls (coreStart vm) = some x)
    (horder : (coreThreads ι maps).Each InOrder ls (coreStart vm)) : Uses x.shared := by
  have hx' : Ordered x := Machine.exec_invariant_of_each
    (fun _ _ _ hu hv hC => ordered_step hu hv hC) (coreStart_ordered vm) horder hx
  by_cases hinited : x.shared.hooks.core.inited = true
  · exact (hx'.settled hinited).1
  · exact uses_of_initial hx'.held.1.2 (by simpa using hinited)

/-- Where every hook is registered before, threads leave what refreshes leave that are called one
after the other. -/
theorem refreshes_settled (hx : (coreThreads ι maps).exec ls (coreStart vm) = some x)
    (horder : (coreThreads ι maps).Each InOrder ls (coreStart vm))
    (hfree : ∀ t, (x.pc t).holdsRefresh = false) :
    x.shared.hooks = refreshAll maps (x.shared.ended.map Option.isSome)
      ⟨{ x.shared.hooks.core with mapInfo := [] }, vm⟩ := by
  obtain ⟨hI, hP⟩ := replayed_of_exec hx
  have hreplay := replay_of_free hI hP hfree
  rw [replay_eq hI.whole (uses_of_exec hx horder).ended vm, ← hreplay]

theorem asking_go (h : GoStep maps t s p s' p') (hp : p.asking = false) : p'.asking = false := by
  cases h with
  | test h => cases h <;> first | rfl | exact hp
  | acquire _ h => cases h <;> first | rfl | exact hp
  | release h => cases h <;> rfl
  | sleep => rfl
  | write h => cases h <;> rfl
  | refresh h =>
      cases h with
      | unlock => cases t <;> rfl
      | _ => rfl

omit [DecidableEq ι] in
theorem registering_of_asking (h : p.asking = false) : p.registering = false := by
  cases p <;> first | rfl | exact h

/-- Calls of `xh_core_register` do not begin by themselves. -/
theorem asking_step (h : coreStep maps t act s p = some (s', p'))
    (hact : ∀ hi, act ≠ .register hi) (hp : p.asking = false) : p'.asking = false := by
  unfold coreStep at h
  split at h
  · exact asking_go (goStep_of_coreGo h) hp
  · exact absurd rfl (hact _)
  · obtain ⟨rfl, rfl⟩ := Prod.mk.inj (Option.some.inj h)
    rfl
  · obtain ⟨rfl, rfl⟩ := Prod.mk.inj (Option.some.inj h)
    rfl
  · simp at h

/-- Where every call of `xh_core_register` has returned, calls of `xh_core_refresh` are in
order. -/
theorem inOrder_of_registered (hx : ∀ t, (x.pc t).asking = false)
    (hls : ∀ l ∈ ls, ∀ hi, l.2 ≠ .register hi) :
    (coreThreads ι maps).Each InOrder ls x := by
  induction ls generalizing x with
  | nil => trivial
  | cons l ls ih =>
      intro y hy
      refine ⟨fun _ _ t => ?_, ih ?_ fun l hl => hls l (List.mem_cons_of_mem _ hl)⟩
      · exact registering_of_asking (hx t)
      · obtain ⟨⟨s', p'⟩, hstep, rfl⟩ := Option.map_eq_some_iff.mp hy
        intro t
        by_cases ht : t = l.1
        · rw [ht]
          simpa using asking_step hstep (hls l List.mem_cons_self) (hx l.1)
        · simpa [Function.update_of_ne ht] using hx t

theorem raced_inOrder : (coreThreads Bool growing).Each InOrder (registering ++ refreshing)
    (coreStart ⟨memoryOf [], 1⟩) := by
  refine Machine.each_append _ |>.mpr ⟨?_, fun x hx => inOrder_of_registered ?_ ?_⟩
  · have hnot : (coreThreads Bool growing).Each
        (fun _ _ y => y.shared.hooks.core.inited = false) registering
        (coreStart ⟨memoryOf [], 1⟩) := by
      decide +kernel
    refine Machine.each_of_invariant (I := fun _ => True) ?_ trivial hnot
    intro _ _ y _ _ hy
    exact ⟨fun _ hinited => by simp [hy] at hinited, trivial⟩
  · have hdone : ((coreThreads Bool growing).exec registering
        (coreStart ⟨memoryOf [], 1⟩)).all (fun x => !(x.pc (.inl false)).asking) = true := by
      decide +kernel
    rw [hx] at hdone
    intro t
    by_cases ht : t = .inl false
    · simpa [ht] using hdone
    · rw [pc_of_exec (u := t) (by simp [registering, steps, Ne.symm ht]) hx]
      rcases t with _ | _ <;> rfl
  · simp [refreshing, steps]

theorem refreshes_settled_raced : ∃ x, raced = some x ∧
    x.shared.hooks = refreshAll growing (x.shared.ended.map Option.isSome)
      ⟨{ x.shared.hooks.core with mapInfo := [] }, ⟨memoryOf [], 1⟩⟩ := by
  obtain ⟨x, hx, -, -, hquiet⟩ := exists_raced
  exact ⟨x, hx, refreshes_settled hx raced_inOrder (free_of_quiet hquiet)⟩

end Runs

end Patrons.Xhook
