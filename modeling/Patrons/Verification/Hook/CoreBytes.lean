import Patrons.Model.CoreBytes
import Patrons.Verification.Hook.Footprint
import Patrons.Verification.Hook.History

/-! # Images in memory

A refresh over bytes is the refresh over images, where the hooks keep away from the bytes that
say what the images are. -/

namespace Patrons.Xhook

open Bytes Loop

variable {π : Type*} {maps : Maps π} {fuel : ℕ} {S : Set Addr} {m : Bytes} {mi : MapInfo}
  {hooks : List HookInfo}

/-- The symbols and the relocations of an image, all of them in `S`. -/
structure Linked (image : Image) (fuel : ℕ) (S : Set Addr) (elf : Elf) (m : Bytes)
    (names : List (List (BitVec 8))) (tables : Tables elf m) : Prop where
  named : Names elf m names
  short : ∀ name ∈ names, name.length + 1 < 2 ^ 32
  indexed : Indexed elf m names
  symidx : ∀ symbol, cstr symbol ≠ [] →
    elf.xhElfFindSymidxByName m symbol fuel = some (image.symidx symbol)
  relocs : tables.relocs = image.relocs
  lookupBytes : {b | LookupByte elf m names b} ⊆ S
  tableBytes : tables.bytes ⊆ S
  enough : names.length < fuel ∧ tables.Within fuel

/-- The image at the base of `mi` is in memory, and what is read of it lies in `S`. -/
structure Loaded (maps : Maps π) (fuel : ℕ) (S : Set Addr) (m : Bytes) (mi : MapInfo) : Prop where
  space : InSpace m mi.baseAddr
  enough : ∀ dhdr, dynamicPhdr m mi.baseAddr = some dhdr → (dhdr.pMemsz / 8).toNat < fuel
  init : (xhElfInit m fuel mi.baseAddr (some mi.pathname)).map Except.toOption =
    some (maps.elfOf mi)
  initBytes : {b | InitByte m mi.baseAddr b} ⊆ S
  linked : ∀ elf, maps.elfOf mi = some elf →
    ∃ names tables, Linked (maps.image mi.baseAddr) fuel S elf m names tables

/-- What the hooks write for the image of `mi` keeps away from `S`. -/
structure KeepsOff (maps : Maps π) (hooks : List HookInfo) (S : Set Addr) (mi : MapInfo) :
    Prop where
  named : ∀ hi ∈ hooks, cstr hi.symbol ≠ []
  old : ∀ hi ∈ hooks, hi.oldFunc ≠ 0 → Disjoint (word hi.oldFunc) S
  slots : ∀ elf, maps.elfOf mi = some elf → ∀ hi ∈ hooks, ∀ symidx,
    (maps.image mi.baseAddr).symidx hi.symbol = some symidx →
    ∀ a ∈ (maps.image mi.baseAddr).relocs.slots elf symidx, Disjoint (word a) S

/-- Each image that a refresh looks at is in memory, and the hooks keep away from all of them. -/
structure InMemory (maps : Maps π) (fuel : ℕ) (hooks : List HookInfo) (S : Set Addr) (m : Bytes) :
    Prop where
  header : ∀ line ∈ maps.lines, line.accepted = true → span line.baseAddr 52 ⊆ S ∧
    (xhElfCheckElfheader m line.baseAddr = 0 ↔ (maps.image line.baseAddr).headerOk = true)
  loaded : ∀ line ∈ maps.lines, line.accepted = true →
    (maps.image line.baseAddr).headerOk = true → Loaded maps fuel S m line.mapInfo
  keepsOff : ∀ line ∈ maps.lines, line.accepted = true →
    (maps.image line.baseAddr).headerOk = true → KeepsOff maps hooks S line.mapInfo
  base : ∀ hi ∈ hooks, hi.baseAddr ≠ 0 → Disjoint (word hi.baseAddr) S

theorem InMemory.mono {hooks' : List HookInfo} (h : InMemory maps fuel hooks S m)
    (hsub : hooks' ⊆ hooks) : InMemory maps fuel hooks' S m where
  header := h.header
  loaded := h.loaded
  keepsOff line hline haccepted hok :=
    { named := fun hi hhi => (h.keepsOff line hline haccepted hok).named hi (hsub hhi)
      old := fun hi hhi => (h.keepsOff line hline haccepted hok).old hi (hsub hhi)
      slots := fun elf helf hi hhi =>
        (h.keepsOff line hline haccepted hok).slots elf helf hi (hsub hhi) }
  base hi hhi := h.base hi (hsub hhi)

/-- Where the images are does not depend on what a refresh gets from the C library. -/
theorem Loaded.withCalls (h : Loaded maps fuel S m mi) (calls : RefreshCalls π) :
    Loaded (maps.withCalls calls) fuel S m mi :=
  ⟨h.space, h.enough, h.init, h.initBytes, h.linked⟩

theorem KeepsOff.withCalls (h : KeepsOff maps hooks S mi) (calls : RefreshCalls π) :
    KeepsOff (maps.withCalls calls) hooks S mi :=
  ⟨h.named, h.old, h.slots⟩

theorem InMemory.withCalls (h : InMemory maps fuel hooks S m) (calls : RefreshCalls π) :
    InMemory (maps.withCalls calls) fuel hooks S m where
  header := h.header
  loaded line hline haccepted hok := (h.loaded line hline haccepted hok).withCalls calls
  keepsOff line hline haccepted hok := (h.keepsOff line hline haccepted hok).withCalls calls
  base := h.base

def Cells.all (cells : Cells) : List HookInfo :=
  [cells.registerDlopen, cells.registerDlsym, cells.registerStub, cells.registerFopen]

variable {cells : Cells}

/-- Nothing else is registered, and the images are still in memory. -/
structure Clean (cells : Cells) (S : Set Addr) (m : Bytes) (s : Hooks π) : Prop where
  hooks : s.core.hookInfo ⊆ cells.all
  mem : Set.EqOn s.vm.mem m S

theorem Clean.register {s : Hooks π} (h : Clean cells S m s) (hi : HookInfo)
    (hhi : hi ∈ cells.all) (calls : RegisterCalls) : Clean cells S m (register calls hi s) := by
  refine ⟨?_, h.mem⟩
  have hadded : s.core.hookInfo ++ [hi] ⊆ cells.all :=
    List.append_subset.mpr ⟨h.hooks, List.cons_subset.mpr ⟨hhi, List.nil_subset _⟩⟩
  rw [Xhook.register, xhCoreRegister]
  split
  · exact h.hooks
  · split
    · exact h.hooks
    · split
      · exact h.hooks
      · split
        · exact h.hooks
        · exact hadded

theorem Clean.registerAll {s : Hooks π} (h : Clean cells S m s) (g : Globals) (fix : Bool)
    (registers : HookInfo → RegisterCalls) :
    Clean cells S m (cells.registerAll g fix registers s) := by
  have hdlopen := h.register cells.registerDlopen (by simp [Cells.all])
    (registers cells.registerDlopen)
  have hdlsym := hdlopen.register cells.registerDlsym (by simp [Cells.all])
    (registers cells.registerDlsym)
  have hstub := hdlsym.register cells.registerStub (by simp [Cells.all])
    (registers cells.registerStub)
  rw [Cells.registerAll]
  split
  · exact hstub.register _ (by simp [Cells.all]) _
  · exact hstub

end Patrons.Xhook
