import MeizuSm8150.Lib.Sysfs

/-!
# Sunlight enhancement

`livedisplay/SunlightEnhancement.cpp`. The file is read as text, trimmed and given to
`std::stoi`, whose exceptions nobody catches.
-/

namespace MeizuSm8150.Display

open CMachine CDecimal Sysfs

def fileHbm : String := "/sys/class/meizu/lcm/display/hbm"

def isEnabled (files : Files) : Except StoiError Bool := do
  let contents ← match files fileHbm with
    | some tmp => stoi (trim tmp)
    | none => .ok 0
  return contents > 0

def setEnabled (files : Files) (enabled : Bool) : Files :=
  files.write fileHbm (ascii (if enabled then "1" else "0"))

end MeizuSm8150.Display
