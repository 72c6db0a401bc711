import Patrons.Model.Image

/-! # The registry of hooks

`xh_core.c`: hooks are registered before the first refresh, and a refresh applies them to
the images that the process maps. Calls of the C library may fail. No fault is raised, and
`xh_core_ignore` has no caller. -/

namespace Patrons.Xhook

open Bytes

/-- `xh_core_hook_info_t`. A compiled regex is kept as its text, a null pointer is 0. -/
structure HookInfo where
  pathnameRegex : String
  symbol : String
  newFunc : Addr
  oldFunc : Addr
  baseAddr : Addr
  deriving DecidableEq

/-- `xh_core_map_info_t`; its `elf` is made anew by every hook. -/
structure MapInfo where
  pathname : String
  baseAddr : Addr
  deriving DecidableEq

/-- A line of `/proc/self/maps` that `sscanf` reads. -/
structure MapsLine where
  baseAddr : Addr
  perm : String
  offset : SizeT
  pathname : String

/-- What is mapped at an address: whether `xh_elf_check_elfheader` accepts it, what
`xh_elf_init` makes of it, the symbols that the lookup finds and the relocations. -/
structure Image where
  headerOk : Bool
  elf : Option Elf
  symidx : String → Option SizeT
  relocs : Relocs

/-- What a process has mapped, with `regexec` of the C library; `allocates` says for which
lines it has memory for a map info. -/
structure Maps (π : Type*) where
  lines : List MapsLine
  image : Addr → Image
  regexec : (regex pathname : String) → Bool
  allocates : MapsLine → Bool := fun _ => true
  pages : Pages π

/-- The globals of `xh_core.c`. The tree of map infos is a list without repeated pathnames. -/
structure Core where
  hookInfo : List HookInfo := []
  mapInfo : List MapInfo := []
  inited : Bool := false
  initOk : Bool := false
  asyncInited : Bool := false
  asyncInitOk : Bool := false
  refreshThreadDo : Bool := false

/-- Which calls of the C library in `xh_core_register` succeed. -/
structure RegisterCalls where
  regcomp : Bool := true
  malloc : Bool := true
  strdup : Bool := true

def xhCoreRegister (calls : RegisterCalls) (hi : HookInfo) (core : Core) : ℤ × Core :=
  if core.inited then (errnoInval, core)
  else if !calls.regcomp then (errnoInval, core)
  else if !calls.malloc then (errnoNomem, core)
  else if !calls.strdup then (errnoNomem, core)
  else (0, { core with hookInfo := core.hookInfo ++ [hi] })

/-- The line is a readable private mapping of a file from its start. -/
def MapsLine.accepted (line : MapsLine) : Bool :=
  line.perm.toList[0]? == some 'r' && line.perm.toList[3]? == some 'p' && line.offset == 0 &&
    line.pathname.toList != [] && line.pathname.toList.head? != some '['

def MapsLine.mapInfo (line : MapsLine) : MapInfo := ⟨line.pathname, line.baseAddr⟩

namespace Maps

variable {π : Type*} (maps : Maps π)

def matchesHook (pathname : String) (hi : HookInfo) : Bool := maps.regexec hi.pathnameRegex pathname

/-- `xh_elf_init` of the image at the base of a map info. -/
def elfOf (mi : MapInfo) : Option Elf :=
  (maps.image mi.baseAddr).elf.map fun elf => { elf with pathname := some mi.pathname }

/-- `xh_elf_hook` on an initialised image. -/
def hookSymbol (mi : MapInfo) (elf : Elf) (hi : HookInfo) (vm : Vm π) : Vm π :=
  match (maps.image mi.baseAddr).symidx hi.symbol with
  | none => vm
  | some symidx =>
    ((maps.image mi.baseAddr).relocs.hook maps.pages elf symidx hi.newFunc hi.oldFunc vm).2

/-- `xh_core_hook_impl`. -/
def xhCoreHook (hooks : List HookInfo) (mi : MapInfo) (vm : Vm π) : Vm π :=
  match maps.elfOf mi with
  | none => vm
  | some elf =>
    (hooks.filter (maps.matchesHook mi.pathname)).foldl
      (fun vm hi => maps.hookSymbol mi elf hi vm) vm

/-- A refresh between two lines: the tree it started with, the new tree, and memory. -/
structure Scan (π : Type*) where
  old : List MapInfo
  refreshed : List MapInfo
  vm : Vm π

/-- `if (hi->base_addr != NULL) *(hi->base_addr) = base_addr`. -/
def writeBase (hi : HookInfo) (base : Addr) (vm : Vm π) : Vm π :=
  if hi.baseAddr ≠ 0 then { vm with mem := storeWord vm.mem hi.baseAddr base } else vm

/-- The loop body of `xh_core_refresh_impl`. -/
def scanLine (hooks : List HookInfo) (scan : Scan π) (line : MapsLine) : Scan π :=
  if !line.accepted then scan
  else
    match hooks.find? (maps.matchesHook line.pathname) with
    | none => scan
    | some hi =>
      if !(maps.image line.baseAddr).headerOk then scan
      else
        let scan := { scan with vm := writeBase hi line.baseAddr scan.vm }
        let repeated := scan.refreshed.any (·.pathname == line.pathname)
        match scan.old.find? (·.pathname == line.pathname) with
        | some mi =>
          let scan := { scan with old := scan.old.eraseP (·.pathname == line.pathname) }
          if repeated then scan
          else
            { scan with
              refreshed := scan.refreshed ++ [line.mapInfo]
              vm := if mi.baseAddr ≠ line.baseAddr then
                  maps.xhCoreHook hooks line.mapInfo scan.vm
                else scan.vm }
        | none =>
          if !maps.allocates line then scan
          else if repeated then scan
          else
            { scan with
              refreshed := scan.refreshed ++ [line.mapInfo]
              vm := maps.xhCoreHook hooks line.mapInfo scan.vm }

end Maps

structure Hooks (π : Type*) where
  core : Core
  vm : Vm π

variable {π : Type*} (maps : Maps π)

/-- `xh_core_refresh_impl`; `opened` says whether `/proc/self/maps` can be opened. -/
def xhCoreRefreshImpl (opened : Bool) (s : Hooks π) : Hooks π :=
  if !opened then s
  else
    let scan := maps.lines.foldl (maps.scanLine s.core.hookInfo) ⟨s.core.mapInfo, [], s.vm⟩
    { core := { s.core with mapInfo := scan.refreshed }, vm := scan.vm }

/-- `xh_core_init_once`; `handled` says whether `sigaction` takes the handler. -/
def xhCoreInitOnce (handled : Bool) (core : Core) : Core :=
  if core.inited then core
  else if handled then { core with inited := true, initOk := true }
  else { core with inited := true }

/-- `xh_core_init_async_once`; `created` says whether the thread can be created. -/
def xhCoreInitAsyncOnce (created : Bool) (core : Core) : Core :=
  if core.asyncInited then core else { core with asyncInited := true, asyncInitOk := created }

/-- `xh_core_refresh`. Its result is ignored by the callers. -/
def xhCoreRefresh (async handled opened created : Bool) (s : Hooks π) : Hooks π :=
  let s := { s with core := xhCoreInitOnce handled s.core }
  if !s.core.initOk then s
  else if async then
    let core := xhCoreInitAsyncOnce created s.core
    if !core.asyncInitOk then { s with core := core }
    else { s with core := { core with refreshThreadDo := true } }
  else xhCoreRefreshImpl maps opened s

/-- One turn of `xh_core_refresh_thread_func` with a refresh to do. -/
def xhCoreRefreshThread (opened : Bool) (s : Hooks π) : Hooks π :=
  xhCoreRefreshImpl maps opened { s with core := { s.core with refreshThreadDo := false } }

end Patrons.Xhook
