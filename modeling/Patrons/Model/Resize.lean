import Patrons.Model.Signal

/-! # Resizing the region space -/

namespace Patrons

/-! ## Below Android P -/

variable (lib : ArtLib)

def offsetRegionLock : SizeT := 0x38

def offsetMemMap : SizeT := 0x20

/-- `if ((*end_ - *begin_) > new_capacity) *end_ = *limit_;` -/
def clampEnd (new_capacity : SizeT) : Native Unit := do
  let g ← globals
  let e ← load .clampEnd g.end_
  let b ← load .clampSizeBegin g.begin_
  Prog.when (new_capacity < e - b) do
    let l ← load .clampNewEnd g.limit_
    store .clampSetEnd g.end_ l

/-- The block of `ClampGrowthLimit__` under `new_capacity > used`. -/
def clampSpace (region_space : Addr) (new_capacity : SizeT) : Native Unit := do
  let g ← globals
  store .clampNumRegions g.numRegions_ (new_capacity / kRegionSize)
  let b ← load .clampBegin g.begin_
  store .clampLimit g.limit_ (b + new_capacity)
  clampEnd new_capacity
  let bitmap ← load .clampBitmap (region_space + g.offsetSpaceBitmapInRegionSpace)
  callArt .clampSetHeapSize g.setHeapSize (.setHeapSize bitmap new_capacity)
    (lib.setHeapSize bitmap new_capacity)
  let memMap ← load .clampMemMap (region_space + offsetMemMap)
  callArt .clampSetSize g.setSize (.setSize memMap new_capacity) (lib.setSize memMap new_capacity)

/-- What `ClampGrowthLimit__` does while it holds the region lock. -/
def clampLocked (region_space : Addr) (new_capacity : SizeT) : Native Unit := do
  let g ← globals
  let nonFree ← load .clampUsed g.nonFreeRegionIndexLimit_
  Prog.when (nonFree * kRegionSize < new_capacity) (clampSpace lib region_space new_capacity)

/-- `ExclusiveLock((void *) ((size_t) region_space + 0x38), ThreadCurrent())`. -/
def lockRegion (region_space : Addr) : Native Unit := do
  threadCurrent lib .lockThread
  exclusiveLock lib .lock (region_space + offsetRegionLock)

def unlockRegion (region_space : Addr) : Native Unit := do
  threadCurrent lib .unlockThread
  exclusiveUnlock lib .unlock (region_space + offsetRegionLock)

def clampGrowthLimit_ (region_space : Addr) (new_capacity : SizeT) : Native Unit := do
  lockRegion lib region_space
  clampLocked lib region_space new_capacity
  unlockRegion lib region_space

/-! ## Both ranges of versions -/

def callClampGrowthLimit (region_space : Addr) (new_capacity : SizeT) : Native Unit := do
  let g ← globals
  match g.clampGrowthLimit with
  | .null => Prog.touch .resizeClamp fun _ => false
  | .own => clampGrowthLimit_ lib region_space new_capacity
  | .art f =>
    callArt .resizeClamp f (.clampGrowthLimit region_space new_capacity)
      (lib.clampGrowthLimit region_space new_capacity)

/-! The lines that `ResizeRegionSpace` logs. -/

def tooSmallLine (new_size : JInt) : LogLine :=
  ⟨"target size (%d) is too small!", [.int new_size.toInt]⟩

def currentLine (regions used nonGrowLimit : SizeT) (new_size : JInt) : LogLine :=
  ⟨"current has %d regions, used = %d mb, max = %d mb, target = %d mb",
    [.int regions.toInt, .int (used / MB).toInt, .int (nonGrowLimit / MB).toInt,
      .int (new_size / MB).toInt]⟩

def canNotGrowLine (nonGrowLimit : SizeT) (new_size : JInt) : LogLine :=
  ⟨"can not grow region space, new size = %d, but limit size = %d",
    [.int (new_size / MB).toInt, .int (nonGrowLimit / MB).toInt]⟩

def bellowUsedLine (used : SizeT) (new_size : JInt) : LogLine :=
  ⟨"resize failed, new size (%d) mb bellow current used size (%d) mb",
    [.int (new_size / MB).toInt, .int (used / MB).toInt]⟩

def resizedLine (new_size : JInt) : LogLine :=
  ⟨"it has been resize into %zu mb.", [.int (new_size / MB).toNat]⟩

/-- The reads of `ResizeRegionSpace` and its checks, up to the call of `ClampGrowthLimit`;
`true` lets the call go on. -/
def resizeChecks (new_size : JInt) : Native Bool := do
  if new_size.sle 0 then do
    dumpLine (tooSmallLine new_size)
    pure false
  else do
    let g ← globals
    let nonFree ← load .resizeUsed g.nonFreeRegionIndexLimit_
    let used := nonFree * kRegionSize
    let nonGrowLimit ← nonGrowthLimitCapacity .resizeLimit .resizeBegin
    let regions ← load .resizeLog g.nonFreeRegionIndexLimit_
    dumpLine (currentLine regions used nonGrowLimit new_size)
    if nonGrowLimit < new_size then do
      dumpLine (canNotGrowLine nonGrowLimit new_size)
      pure false
    else if used < new_size then
      pure true
    else do
      dumpLine (bellowUsedLine used new_size)
      pure false

def resizeRegionSpace (new_size : JInt) : Native Bool := do
  if ← resizeChecks new_size then do
    let g ← globals
    callClampGrowthLimit lib g.regionSpace_ new_size
    dumpLine (resizedLine new_size)
    pure true
  else
    pure false

/-- `api_level` from Android O (26) to Android S (31). -/
def isAndroidVersionMatch : Native Bool := do
  let g ← globals
  if g.apiLevel < 26 || 31 < g.apiLevel then do
    logLine "support android [8 - 12], but current api is %d" [.int g.apiLevel]
    pure false
  else
    pure true

/-- The guarded resize. The value of `ResizeRegionSpace` is not looked at. -/
def shrinkProtected (new_size : JInt) : Native Bool := do
  setHandleSignalFlag true
  guarded
    (do
      let _ ← resizeRegionSpace lib (new_size * MB)
      setHandleSignalFlag false
      pure true)
    (do
      logLine "resize failed, found exception signal."
      pure false)

def shrinkRegionSpace (new_size : JInt) : Native Bool := do
  if !(← isAndroidVersionMatch) then
    pure false
  else do
    let g ← globals
    if !g.init_ then do
      logLine "init patrons first!"
      pure false
    else if g.clampGrowthLimit != .null && g.regionSpace_ != 0 then
      if g.hasExceptionHandle_ && !g.debuggable then
        shrinkProtected lib new_size
      else
        resizeRegionSpace lib (new_size * MB)
    else do
      logLine "resize failed, key param is NULL, instance = %p, method = %p."
        [.ptr g.regionSpace_, g.clampGrowthLimit.logArg]
      pure false

def getCurrentRegionSpaceSize : Native JLong := do
  let g ← globals
  if !g.init_ then do
    logLine "init patrons first!"
    pure (-1)
  else do
    let capacity ← nonGrowthLimitCapacity .sizeLimit .sizeBegin
    pure (capacity.zeroExtend 64)

end Patrons
