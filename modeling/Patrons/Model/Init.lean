import Patrons.Model.Resize

/-! # Native initialisation -/

namespace Patrons

/-! ## Environment -/

/-- The system properties and the API level of the device. -/
structure Device where
  property : String → String
  apiLevel : ℤ

def initEnv (dev : Device) (g : Globals) : Globals :=
  let system_brand := dev.property "ro.product.system.brand"
  { g with
    brand := dev.property "ro.product.brand"
    systemBrand := system_brand
    device := dev.property "ro.product.model"
    heapsize := dev.property "dalvik.vm.heapsize"
    fingerprint := dev.property "ro.build.fingerprint"
    romVersion := dev.property ("ro.build.version." ++ system_brand ++ "rom")
    apiLevel := dev.apiLevel }

/-- `strcasecmp(s, t) == 0`. -/
def strcasecmp (s t : String) : Bool :=
  s.toList.map Char.toLower == t.toList.map Char.toLower

/-- `memcmp(s, t, strlen(t)) == 0` for one of the prefixes `ts`. -/
def memcmpAny (s : String) (ts : List String) : Bool :=
  ts.any fun t => t.toList.isPrefixOf s.toList

/-- Offsets in `Heap` and `RegionSpace` on Android 8. -/
def offsetsO (brand device : String) : SizeT × SizeT :=
  if strcasecmp brand "samsung" then
    if memcmpAny device ["SM-C", "SM-A7", "SM-A5", "SM-A3", "SM-A605", "SM-J", "SM-G5"] then
      (0x1d4, 0x74 - 4)
    else if memcmpAny device ["SM-N", "SM-G9", "SM-A600"] then (0x1dc, 0x7c - 4)
    else (0x1F4, 0x94 - 4)
  else (0x1dc, 0x7c - 4)

def offsetsOMr1 (brand device : String) : SizeT × SizeT :=
  if strcasecmp brand "samsung" then
    if memcmpAny device ["SM-G6"] then (0x1e4, 0x7c - 4)
    else if memcmpAny device ["SM-J", "SM-G8", "SM-N"] then (0x1dc, 0x74 - 4)
    else (0x1dc, 0x7c - 4)
  else (0x1e4, 0x7c - 4)

/-- `DefineOffset`. The bitmap offset is only set below Android P, and an unknown level
takes the values of Android 10. -/
def defineOffset (g : Globals) : Globals :=
  if g.apiLevel = 26 then
    let o := offsetsO g.brand g.device
    { g with
      offsetHeapInRuntime := 0xF4
      offsetRegionSpaceInHeap := o.1
      offsetRegionLimitInRegionSpace := o.2
      offsetNumRegionsInRegionSpace := o.2 - 4 * 3
      offsetSpaceBitmapInRegionSpace := o.2 + 52 }
  else if g.apiLevel = 27 then
    let o := offsetsOMr1 g.brand g.device
    { g with
      offsetHeapInRuntime := 0xF4
      offsetRegionSpaceInHeap := o.1
      offsetRegionLimitInRegionSpace := o.2
      offsetNumRegionsInRegionSpace := o.2 - 4 * 3
      offsetSpaceBitmapInRegionSpace := o.2 + 52 }
  else if g.apiLevel = 28 then
    { g with
      offsetHeapInRuntime := 0x128
      offsetRegionSpaceInHeap := 0x1c4
      offsetRegionLimitInRegionSpace := 0x78
      offsetNumRegionsInRegionSpace := 0x78 - 4 * 5 }
  else if g.apiLevel = 30 then
    { g with
      offsetHeapInRuntime := if strcasecmp g.brand "meizu" then 0xF4 else 0x114 - 4 * 10
      offsetRegionSpaceInHeap := if strcasecmp g.brand "samsung" then 0x210 else 0x208
      offsetRegionLimitInRegionSpace := 0x160
      offsetNumRegionsInRegionSpace := 0x160 - 4 * 5 - 12 }
  else if g.apiLevel = 31 then
    { g with
      offsetHeapInRuntime :=
        if memcmpAny g.device ["SM-S901N"] then 0x150 - 4 * 10 else 0x120 - 4 * 10
      offsetRegionSpaceInHeap := if memcmpAny g.device ["SM-S901N"] then 0x218 else 0x210
      offsetRegionLimitInRegionSpace := 0x16c
      offsetNumRegionsInRegionSpace := 0x16c - 4 * 5 - 12 - 8 - 4 }
  else
    { g with
      offsetHeapInRuntime := 0x118 - 4 * 10
      offsetRegionSpaceInHeap := 0x1ec
      offsetRegionLimitInRegionSpace := 0x94
      offsetNumRegionsInRegionSpace := 0x94 - 4 * 5 }

def getArtPath (api_level : ℤ) : String :=
  if api_level = 29 then "/apex/com.android.runtime/lib/libart.so"
  else if api_level = 30 ∨ api_level = 31 then "/apex/com.android.art/lib/libart.so"
  else "/system/lib/libart.so"

/-! ## Symbols -/

/-- What a refresh of the registrations stores; a symbol that is not found leaves its
slot alone. -/
structure FoundSymbols where
  loaderDlopen : Option Addr := none
  loaderDlsym : Option Addr := none
  stubMethodInArt : Option Addr := none

/-- The linker and the loaded libraries as one call of native init meets them. -/
structure Linker where
  xhook : (sync isFixHuaweiBinder : Bool) → FoundSymbols
  dlopen : (fn : Addr) → (name : String) → (caller : Addr) → Addr
  dlsym : (fn handle : Addr) → (symbol : String) → (caller : Addr) → Addr
  zlibVersion : Addr

variable (ld : Linker)

def findSymbol (sync isFixHuaweiBinder : Bool) (g : Globals) : Globals :=
  let found := ld.xhook sync isFixHuaweiBinder
  { g with
    loaderDlopen := found.loaderDlopen.getD g.loaderDlopen
    loaderDlsym := found.loaderDlsym.getD g.loaderDlsym
    stubMethodInArt := found.stubMethodInArt.getD g.stubMethodInArt }

/-- The address in whose name the linker is called. -/
def callerAddr (g : Globals) : Addr :=
  if g.stubMethodInArt ≠ 0 then g.stubMethodInArt else ld.zlibVersion

def dlopenArt (g : Globals) (name : String) : Addr :=
  if g.loaderDlopen ≠ 0 then ld.dlopen g.loaderDlopen name (callerAddr ld g) else 0

def dlsymArt (g : Globals) (symbol : String) : Addr :=
  if g.loaderDlsym ≠ 0 then ld.dlsym g.loaderDlsym g.art_ symbol (callerAddr ld g) else 0

/-! ## `NativeInit` -/

def setGlobals (f : Globals → Globals) : Native Unit :=
  Prog.modify fun s => s.setGlobals (f s.g)

/-- One stage of `NativeInit`: a code stops it there, `none` lets it go on. -/
def orReturn (stage : Native (Option Code)) (rest : Native Code) : Native Code := do
  match ← stage with
  | some code => pure code
  | none => rest

def checkEnvironment : Native (Option Code) := do
  let g ← globals
  logLine "start init, sdk = %s, api = %d, debuggable = %d, protect = %d, heap size config = %s"
    [.str "1.1.0", .int g.apiLevel, .int g.debuggable.toNat, .int g.hasExceptionHandle_.toNat,
      .str g.heapsize]
  logLine "[device] brand = %s" [.str g.brand]
  logLine "[device] system brand = %s" [.str g.systemBrand]
  logLine "[device] device = %s" [.str g.device]
  logLine "[device] rom version = %s" [.str g.romVersion]
  logLine "[device] fingerprint = %s" [.str g.fingerprint]
  if !(← isAndroidVersionMatch) then
    pure (some .androidVersionNotSupport)
  else if !(g.loaderDlopen != 0 && g.loaderDlsym != 0) then do
    logLine "key method not found, %p, %p, %p"
      [.ptr g.loaderDlopen, .ptr g.loaderDlsym, .ptr g.stubMethodInArt]
    pure (some .loaderFunctionNotFound)
  else
    pure none

def loadArt : Native (Option Code) := do
  let path := getArtPath (← globals).apiLevel
  setGlobals fun g => { g with art_ := dlopenArt ld g path }
  let g ← globals
  if g.art_ = 0 then do
    logLine "art is NULL, art = %s" [.str path]
    pure (some .artLoadFailed)
  else do
    logLine "[instance] a_ = %p, art = %s" [.ptr g.art_, .str path]
    pure none

def loadRuntime : Native (Option Code) := do
  let runtime ← load .initRuntime (dlsymArt ld (← globals) "_ZN3art7Runtime9instance_E")
  setGlobals fun g => { g with runtime_ := runtime }
  if runtime = 0 then do
    logLine "r_ is NULL"
    pure (some .runtimeLoadFailed)
  else do
    logLine "[instance] r_ = %p" [.ptr runtime]
    pure none

def loadHeap : Native (Option Code) := do
  let g ← globals
  let heap ← load .initHeap (g.runtime_ + g.offsetHeapInRuntime)
  setGlobals fun g => { g with heap_ := heap }
  if heap = 0 then do
    logLine "h_ is NULL, offset = %d" [.int g.offsetHeapInRuntime.toInt]
    pure (some .heapLoadFailed)
  else do
    logLine "[instance] h_ = %p" [.ptr heap]
    pure none

def setFieldAddresses (g : Globals) : Globals :=
  { g with
    begin_ := g.regionSpace_ + 0x14
    end_ := g.regionSpace_ + 0x18
    limit_ := g.regionSpace_ + 0x1c
    numRegions_ := g.regionSpace_ + g.offsetNumRegionsInRegionSpace
    nonFreeRegionIndexLimit_ := g.regionSpace_ + g.offsetRegionLimitInRegionSpace }

def loadRegionSpace : Native (Option Code) := do
  let g ← globals
  let space ← load .initRegionSpace (g.heap_ + g.offsetRegionSpaceInHeap)
  setGlobals fun g => { g with regionSpace_ := space }
  if space = 0 then do
    logLine "r2 is NULL, offset = %d" [.int g.offsetRegionSpaceInHeap.toInt]
    pure (some .regionSpaceLoadFailed)
  else do
    logLine "[instance] r2 = %p" [.ptr space]
    setGlobals setFieldAddresses
    let g ← globals
    logLine "[instance] b = %p, e = %p, l = %p" [.ptr g.begin_, .ptr g.end_, .ptr g.limit_]
    logLine "[instance] n2 = %p" [.ptr g.numRegions_]
    logLine "[instance] r3 = %p" [.ptr g.nonFreeRegionIndexLimit_]
    pure none

def lookup (symbol : String) (set : Addr → Globals → Globals) (missing : String) (code : Code) :
    Native (Option Code) := do
  let f := dlsymArt ld (← globals) symbol
  setGlobals (set f)
  if f = 0 then do
    logLine missing
    pure (some code)
  else
    pure none

def loadLocks (rest : Native Code) : Native Code :=
  orReturn (lookup ld "_ZN3art5Mutex13ExclusiveLockEPNS_6ThreadE"
    (fun f g => { g with exclusiveLock := f })
    "ExclusiveLock method is NULL" .exclusiveLockMethodNotFound) <|
  orReturn (lookup ld "_ZN3art5Mutex15ExclusiveUnlockEPNS_6ThreadE"
    (fun f g => { g with exclusiveUnlock := f })
    "ExclusiveUnlock method is NULL" .exclusiveUnlockMethodNotFound) <|
  orReturn (lookup ld "_ZN3art6Thread14CurrentFromGdbEv"
    (fun f g => { g with threadCurrent := f })
    "ThreadCurrent method is NULL" .threadCurrentMethodNotFound)
  rest

def loadResizeMethod (rest : Native Code) : Native Code := do
  let g ← globals
  if 28 ≤ g.apiLevel then
    orReturn (lookup ld "_ZN3art2gc5space11RegionSpace16ClampGrowthLimitEj"
      (fun f g => { g with clampGrowthLimit := if f = 0 then .null else .art f })
      "resize method is NULL" .resizeMethodNotFound) rest
  else do
    setGlobals fun g => { g with clampGrowthLimit := .own }
    loadLocks ld rest

/-- `SetHeapSize` and `SetSize` are looked up and not checked. -/
def loadMethods (rest : Native Code) : Native Code := do
  setGlobals fun g => { g with
    setHeapSize := dlsymArt ld g "_ZN3art2gc10accounting11SpaceBitmapILj4096EE11SetHeapSizeEj" }
  setGlobals fun g => { g with setSize := dlsymArt ld g "_ZN3art6MemMap7SetSizeEj" }
  loadResizeMethod ld rest

def finalCheck : Native Code := do
  let g ← globals
  logLine "[instance] m_ = %p" [g.clampGrowthLimit.logArg]
  let capacity ← nonGrowthLimitCapacity .initLimit .initBegin
  let real_num_regions := capacity / kRegionSize
  let num_regions ← load .initNumRegions g.numRegions_
  if num_regions ≠ real_num_regions then do
    let num_regions ← load .initLogNumRegions g.numRegions_
    logLine "final check failed, m_ %d not match l_ %d"
      [.int num_regions.toInt, .int real_num_regions.toInt]
    pure .finalCheckFailed
  else do
    let capacity ← nonGrowthLimitCapacity .initLogLimit .initLogBegin
    let num_regions ← load .initLogNumRegions g.numRegions_
    logLine "region space is %d mb, has %d regions."
      [.int (capacity / MB).toInt, .int num_regions.toInt]
    setGlobals fun g => { g with init_ := true }
    logLine "patrons native init success."
    pure .success

def nativeInit : Native Code := do
  if (← globals).init_ then
    pure .success
  else
    orReturn checkEnvironment <|
    orReturn (loadArt ld) <|
    orReturn (loadRuntime ld) <|
    orReturn loadHeap <|
    orReturn loadRegionSpace <|
    loadMethods ld finalCheck

/-! ## The JNI function -/

structure InitArgs where
  sync : Bool
  debuggable : Bool
  isFixHuaweiBinder : Bool

def cleanLogBuffer : Native Unit :=
  Prog.modify fun s => s.setLog s.log.cleanLogBuffer

def registerSignalHandler (k : SigCalls) : Native Unit := do
  logLine "register signal handler"
  let s ← Prog.get
  let r := handleSignal k s.sig
  Prog.modify fun s => s.setSig r.2
  if r.1 ≠ 0 then
    logLine "signal handler reg failed."
  else do
    setGlobals fun g => { g with hasExceptionHandle_ := true }
    logLine "signal handler reg success, old handler = %p" [.sym "sig_act_old[SIGSEGV]"]

def nativeInitProtected : Native Code := do
  setHandleSignalFlag true
  let code ← guarded (nativeInit ld) do
    logLine "native init failed, found exception signal."
    pure .nativeInitSegmentFault
  setHandleSignalFlag false
  pure code

/-- Steps 1 to 5 of the JNI function: flags, environment, offsets, symbols and the signal
handler. -/
def prepareInit (dev : Device) (args : InitArgs) (k : SigCalls) : Native Unit := do
  setGlobals fun g => { g with debuggable := args.debuggable }
  Prog.when args.debuggable do
    logLine "[warning] debuggable is enable, will disable sgev protection, MUST CLOSE it before release."
  cleanLogBuffer
  setGlobals (initEnv dev)
  setGlobals defineOffset
  setGlobals (findSymbol ld args.sync args.isFixHuaweiBinder)
  registerSignalHandler k

/-- `Java_com_alibaba_android_patronus__1Patrons__1_1init`. -/
def init (dev : Device) (args : InitArgs) (k : SigCalls) : Native Code := do
  prepareInit ld dev args k
  let g ← globals
  if g.hasExceptionHandle_ && !g.debuggable then
    nativeInitProtected ld
  else
    nativeInit ld

end Patrons
