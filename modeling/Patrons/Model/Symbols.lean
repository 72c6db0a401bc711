import Patrons.Library.Machine
import Patrons.Model.Core
import Patrons.Model.Init

/-! # Finding the first symbols

`FindSymbol` registers what it looks for with the hook library and refreshes it. The
registry lives as long as the process, so it outlasts a call of native init. -/

namespace Patrons

def isHuaweiBugDevice (g : Globals) : Bool :=
  g.apiLevel == 29 && (g.brand == "HUAWEI" || g.brand == "HONOR") &&
    ["COL-AL10", "BKL-AL20", "BKL-AL00", "STK-AL00", "TAS-AL00", "TAS-AN00", "COL-TL10",
      "BKL-TL10", "VCE-AL00"].contains g.device

namespace Xhook

/-- The addresses of the pointers that `FindSymbol` fills, and of the function it installs. -/
structure Cells where
  loaderDlopen : Addr
  loaderDlsym : Addr
  stubMethodInArt : Addr
  fopen : Addr
  fixHuaweiFopen : Addr

namespace Cells

variable (cells : Cells)

def registerDlopen : HookInfo := ⟨".*/libdl.so$", "__loader_dlopen", 0, cells.loaderDlopen, 0⟩

def registerDlsym : HookInfo := ⟨".*/libdl.so$", "__loader_dlsym", 0, cells.loaderDlsym, 0⟩

def registerStub : HookInfo :=
  ⟨".*/libart.so$", "_ZN3art10GetCmdLineEv", 0, cells.stubMethodInArt, 0⟩

def registerFopen : HookInfo := ⟨".*/libart.so$", "fopen", cells.fixHuaweiFopen, cells.fopen, 0⟩

end Cells

/-- What a refresh gets from the C library and from the kernel: whether `/proc/self/maps` opens,
for which lines there is memory, and the protection of pages. -/
structure RefreshCalls (π : Type*) where
  opened : Bool := true
  allocates : MapsLine → Bool := fun _ => true
  pages : Pages π

/-- What a call of `FindSymbol` gets from them: memory for its registrations, the signal handler
and the refresh thread besides. -/
structure FindCalls (π : Type*) extends RefreshCalls π where
  registers : HookInfo → RegisterCalls := fun _ => {}
  handled : Bool := true
  created : Bool := true

variable {π : Type*} (maps : Maps π) (cells : Cells)

def Maps.withCalls (calls : RefreshCalls π) : Maps π :=
  { maps with allocates := calls.allocates, pages := calls.pages }

def register (calls : RegisterCalls) (hi : HookInfo) (s : Hooks π) : Hooks π :=
  { s with core := (xhCoreRegister calls hi s.core).2 }

def Cells.registerAll (g : Globals) (isFixHuaweiBinder : Bool)
    (registers : HookInfo → RegisterCalls) (s : Hooks π) : Hooks π :=
  let register hi := register (registers hi) hi
  let s := register cells.registerDlopen s
  let s := register cells.registerDlsym s
  let s := register cells.registerStub s
  if isFixHuaweiBinder && isHuaweiBugDevice g then register cells.registerFopen s else s

def findSymbol (g : Globals) (sync isFixHuaweiBinder : Bool) (calls : FindCalls π)
    (s : Hooks π) : Hooks π :=
  xhCoreRefresh (maps.withCalls calls.toRefreshCalls) (!sync) calls.handled calls.opened
    calls.created (cells.registerAll g isFixHuaweiBinder calls.registers s)

/-- What the pointers hold, as `NativeInit` finds it. -/
def found (s : Hooks π) : FoundSymbols where
  loaderDlopen := some (s.vm.mem.loadWord cells.loaderDlopen)
  loaderDlsym := some (s.vm.mem.loadWord cells.loaderDlsym)
  stubMethodInArt := some (s.vm.mem.loadWord cells.stubMethodInArt)

/-! ## The calls of a process -/

inductive HookEvent (π : Type*) where
  | init (sync isFixHuaweiBinder : Bool) (calls : FindCalls π)
  | refreshThread (calls : RefreshCalls π)

/-- A process on one device with the same libraries throughout. What native init does after
`FindSymbol` does not touch the registry or the pointers. -/
def hooks (dev : Device) : Machine (Hooks π) (HookEvent π) where
  step s
    | .init sync isFixHuaweiBinder calls =>
      some (findSymbol maps cells (initEnv dev {}) sync isFixHuaweiBinder calls s)
    | .refreshThread calls =>
      if s.core.refreshThreadDo then
        some (xhCoreRefreshThread (maps.withCalls calls) calls.opened s)
      else none

/-- A process that has not called native init. -/
def fresh (vm : Vm π) : Hooks π := ⟨{}, vm⟩

end Xhook
end Patrons
