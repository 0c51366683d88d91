import MeizuSm8150.Lib.CMachine
import MeizuSm8150.Lib.CString
import MeizuSm8150.Lib.Matching
import MeizuSm8150.Lib.CivilDate
import MeizuSm8150.Lib.Spans
import MeizuSm8150.Lib.CDecimal
import MeizuSm8150.Lib.CTime
import MeizuSm8150.Lib.Machine
import MeizuSm8150.Lib.Sysfs
import MeizuSm8150.Lib.Binary32
import MeizuSm8150.Lib.Regex
import MeizuSm8150.Recovery.BoyerMoore
import MeizuSm8150.Recovery.BoyerMooreTables
import MeizuSm8150.Recovery.Delta1Theorems
import MeizuSm8150.Recovery.Delta2Theorems
import MeizuSm8150.Recovery.BoyerMooreTheorems
import MeizuSm8150.Recovery.BoyerMooreSkips
import MeizuSm8150.Recovery.ModemVersion
import MeizuSm8150.Recovery.ModemLength
import MeizuSm8150.Recovery.VerifyModem
import MeizuSm8150.Lights.Light
import MeizuSm8150.Lights.LedTheorems
import MeizuSm8150.Lights.BacklightTheorems
import MeizuSm8150.Display.FingerprintInscreen
import MeizuSm8150.Display.SunlightEnhancement
import MeizuSm8150.Display.SunlightTheorems
import MeizuSm8150.Display.HbmTheorems
import MeizuSm8150.Display.PictureAdjustment
import MeizuSm8150.Display.LiveDisplayService
import MeizuSm8150.Display.DefaultTheorems
import MeizuSm8150.Display.ShutdownTheorems
import MeizuSm8150.Display.Utils
import MeizuSm8150.Display.UtilsTheorems
import MeizuSm8150.Vibrator.Vibrator
import MeizuSm8150.Vibrator.PerformTheorems
import MeizuSm8150.Ota.Releasetools
import MeizuSm8150.Ota.ReleasetoolsTheorems
import MeizuSm8150.Display.DimTheorems
import MeizuSm8150.Display.FodTheorems
import MeizuSm8150.Lights.LightTheorems
import MeizuSm8150.Services.Device
import MeizuSm8150.Services.DeviceTheorems
import MeizuSm8150.Display.PictureTheorems
import MeizuSm8150.Recovery.VerdictTheorems
import MeizuSm8150.Ota.UpdateTheorems
import MeizuSm8150.Ota.LineEndTheorems
import MeizuSm8150.Vibrator.ServiceTheorems
import MeizuSm8150.Display.SocketTheorems
import MeizuSm8150.Display.StartUpTheorems
import MeizuSm8150.Recovery.StackTheorems
import MeizuSm8150.Lib.FloatValue
