import Mathlib.Logic.Function.Basic
import Myco.Lib.Bytes

/-!
# The files of a directory

`Files ν`: what each name of a directory holds, if anything. Writing a file and renaming it are the
two changes, each with what it leaves under every name.
-/

namespace Myco.Lib

abbrev Files (ν : Type) := ν → Option Bytes

namespace Files

variable {ν : Type} [DecidableEq ν] {fs : Files ν} {name src dst : ν} {b : Bytes}

def write (fs : Files ν) (name : ν) (b : Bytes) : Files ν := Function.update fs name (some b)

/-- The target's old content is lost; without a source nothing changes. -/
def rename (fs : Files ν) (src dst : ν) : Files ν :=
  match fs src with
  | none => fs
  | some b => Function.update (Function.update fs src none) dst (some b)

@[simp] theorem write_same : fs.write name b name = some b := Function.update_self ..

@[simp] theorem write_of_ne (h : name ≠ src) : fs.write src b name = fs name :=
  Function.update_of_ne h ..

theorem rename_target (h : fs src = some b) : fs.rename src dst dst = some b := by
  simp [rename, h]

theorem rename_source (hne : src ≠ dst) : fs.rename src dst src = none := by
  cases h : fs src with
  | none => simp [rename, h]
  | some b => simp [rename, h, hne]

theorem rename_of_ne (h1 : name ≠ src) (h2 : name ≠ dst) : fs.rename src dst name = fs name := by
  cases h : fs src with
  | none => simp [rename, h]
  | some b => simp [rename, h, h1, h2]

end Files

end Myco.Lib
