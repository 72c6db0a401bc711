import Patrons.Library.Machine
import Patrons.Model.Init

/-! # Runs of a process

A process calls the JNI functions of the library, and ART goes on writing its own
memory. A call that does not return ends the run. -/

namespace Patrons

inductive Event where
  | init (ld : Linker) (args : InitArgs) (k : SigCalls) (φ : Site → Bool)
  | shrinkRegionSpace (new_size : JInt) (φ : Site → Bool)
  | getCurrentRegionSpaceSize (φ : Site → Bool)
  | dumpLogs (cleanAfterDump : Bool)
  | art (mem : Mem)

def Process.loaded (mem : Mem) (handler : ℕ) : Process where
  g := {}
  art := { mem := mem }
  sig := { sigsegv := .foreign handler }
  log := {}

def Native.after {α : Type} (x : Native α) (φ : Site → Bool) (s : Process) : Option Process :=
  (x.run φ s).result?.map Prod.snd

def process (lib : ArtLib) (dev : Device) : Machine Process Event where
  step s
    | .init ld args k φ => (init ld dev args k).after φ s
    | .shrinkRegionSpace new_size φ => (shrinkRegionSpace lib new_size).after φ s
    | .getCurrentRegionSpaceSize φ => getCurrentRegionSpaceSize.after φ s
    | .dumpLogs clean => some (s.setLog (s.log.afterDump clean))
    | .art mem => some (s.setArt { s.art with mem := mem })

/-- A state that a process reaches after a native init that returned `SUCCESS`. -/
def AfterInit (lib : ArtLib) (dev : Device) (s : Process) : Prop :=
  ∃ mem handler before s₀ ld args k φ s₁ after,
    (process lib dev).exec before (Process.loaded mem handler) = some s₀ ∧
    (init ld dev args k).run φ s₀ = .done .success s₁ ∧
    (process lib dev).exec after s₁ = some s

end Patrons
