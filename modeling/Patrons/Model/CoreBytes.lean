import Patrons.Model.ElfInit
import Patrons.Model.Symbols

/-! # A refresh over bytes

`xh_core.c` once more, with the images where they are: `xh_elf_check_elfheader`, `xh_elf_init` and
`xh_elf_hook` read the bytes that earlier hooks have left. `none` is a loop without end. -/

namespace Patrons.Xhook

open Maps

variable {π : Type*} (regexec : (regex pathname : String) → Bool) (allocates : MapsLine → Bool)
  (pages : Pages π) (fuel : ℕ) (hooks : List HookInfo)

end Patrons.Xhook
