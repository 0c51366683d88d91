import MeizuSm8150.Lib.CDecimal

/-!
# Attribute files

Files whose content is what was last written to them, addressed by path, with the ways the
services write and read them.
-/

namespace Sysfs

open CMachine CDecimal Spans

/-- What reading each path yields; `none` where it cannot be read. -/
abbrev Files : Type := String → Option Mem

def Files.write (files : Files) (path : String) (content : Mem) : Files :=
  fun p => if p = path then some content else files p

@[simp] theorem Files.write_same (files : Files) (path : String) (content : Mem) :
    files.write path content path = some content := if_pos rfl

theorem Files.write_other (files : Files) {path p : String} (h : p ≠ path) (content : Mem) :
    files.write path content p = files p := if_neg h

/-- `file << value` for an `int`. -/
def Files.set (files : Files) (path : String) (value : ℤ) : Files :=
  files.write path (ascii (toString value))

theorem Files.set_same (files : Files) (path : String) (value : ℤ) :
    files.set path value path = some (ascii (toString value)) := files.write_same path _

theorem Files.set_other (files : Files) {path p : String} (h : p ≠ path) (value : ℤ) :
    files.set path value p = files p := files.write_other h _

/-- `android::base::Trim`. -/
def trim (s : Mem) : Mem := ((s.dropWhile isSpace).reverse.dropWhile isSpace).reverse

theorem stops_trim (s : Mem) : Stops isSpace (trim s) :=
  (stops_dropWhile s).front (List.rdropWhile_prefix isSpace _)

end Sysfs
