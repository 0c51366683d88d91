import MeizuSm8150.Lib.Regex
import MeizuSm8150.Lib.CDecimal

/-!
# The OTA assertions

`releasetools.py` looks for the modem version an `android-info.txt` requires and adds an edify
command that verifies it on the device. Texts are byte strings: `\s` stands for the six ASCII
white-space characters and `.` for every byte but the line feed.
-/

namespace MeizuSm8150.Ota

open CMachine CDecimal Regex

/-- What the two hooks are called with: `OTA/android-info.txt` of the input zip, and the commands
appended to the script so far. -/
structure Info where
  androidInfo : Mem
  script : List Mem
deriving DecidableEq

/-- `.` -/
def notNewline (b : UInt8) : Bool := b ≠ 10

/-- `\s*(.+)` -/
def valuePattern : Pattern UInt8 := .seq (.star isSpace) (.group (plus notNewline))

/-- `require\s+version-modem\s*=\s*(.+)` -/
def requirePattern : Pattern UInt8 :=
  .seq (literal (ascii "require")) (.seq (plus isSpace)
    (.seq (literal (ascii "version-modem")) (.seq (.star isSpace)
      (.seq (literal (ascii "=")) valuePattern))))

/-- `str.rstrip` -/
def rstrip (s : Mem) : Mem := s.rdropWhile isSpace

def command (version : Mem) : Mem :=
  ascii "assert(meizu_sm8150.verify_modem(\"" ++ version ++ ascii "\") == \"1\");"

/-- The group takes part in every match. -/
def addModemAssertion (info : Info) : Info :=
  match (requirePattern.search info.androidInfo).bind (·.group) with
  | some group =>
    let version := rstrip group
    if version.length ≠ 0 ∧ 42 ∉ version then
      { info with script := info.script ++ [command version] }
    else info
  | none => info

def fullOTAAssertions (info : Info) : Info := addModemAssertion info

def incrementalOTAAssertions (info : Info) : Info := addModemAssertion info

end MeizuSm8150.Ota
